import Mathlib.Logic.Basic

/-!
# Programs over an operation signature

A program that talks to the outside world is a tree: either it is finished, or it issues one
operation and continues with whatever the outside answers. Nothing is said here about what an
operation does; a `Handler` says it, for a state of its own. One program text can therefore be
run to its end, cut short after any operation, or interleaved with another one, and be
reasoned about against an honest or an arbitrary environment.

* **`Prog`**: the tree, with its monad structure.
* **`Prog.run`**, **`Prog.log`** and **`Prog.states`**: the final result and state under a handler,
  the operations issued on the way with their answers, and the states in between.
* **`Prog.Guarded`**: every operation the program can issue satisfies `P`, as long as the
  answers satisfy `A`, and every result satisfies `Q`. It is a property of the tree alone;
  `Guarded.of_mem_log` carries it to the log of any run, `Guarded.run_invariant` to its state.
* **`exec`**: the run of a program that may also fail (`ExceptT` over `Prog`), with one
  equation for each way such programs are put together, and **`Emits`**, `Guarded` for them.
* **`Passes`**: every state of a run satisfies `P`.
* **`Issues`**: every operation of a run, with its answer, satisfies `P`. Unlike `Emits` it is
  about one run, so it may use what the run has learned.
* **`ComesTo`**: a run issues nothing but operations in `P` until it is at another program.
* **`exec_congr`**: a run is the same under a handler that agrees with its own as far as it goes.
* **`Succeeds`**: answers in `A` lead the program to a result.
* **`Reaches`**: answers in `A` lead the program to an operation in `P`.
* **`StopsOn`**: the program stops with an error at the first answer in `B`.
* **`FailsOn`**: the program stops at an answer in `B` and at nothing else, so that by
  `FailsOn.exec_ok_iff` a run succeeds exactly when its log has no such answer.
-/

namespace Effects

universe u v w

/-- A program over the operations `F`, where operation `f` is answered by a value of `R f`. -/
inductive Prog (F : Type u) (R : F → Type v) (α : Type w) : Type (max u v w) where
  | pure (a : α)
  | op (f : F) (k : R f → Prog F R α)

namespace Prog

variable {F : Type u} {R : F → Type v} {α β : Type w}

/-- Sequencing: graft the continuation onto every leaf. -/
def bind : Prog F R α → (α → Prog F R β) → Prog F R β
  | .pure a, g => g a
  | .op f k, g => .op f (fun r => (k r).bind g)

instance : Monad (Prog F R) where
  pure := Prog.pure
  bind := Prog.bind

end Prog

/-- What the outside world does with an operation: answer it and move to the next state. -/
def Handler (F : Type u) (R : F → Type v) (σ : Type w) : Type (max u v w) :=
  (f : F) → σ → R f × σ

namespace Prog

variable {F : Type u} {R : F → Type v} {σ : Type w} {α β : Type w}

/-- Run a program to its end. -/
def run (h : Handler F R σ) : Prog F R α → σ → α × σ
  | .pure a, s => (a, s)
  | .op f k, s => run h (k (h f s).1) (h f s).2

/-- The operations a run issues, in order, each with its answer. -/
def log (h : Handler F R σ) : Prog F R α → σ → List ((f : F) × R f)
  | .pure _, _ => []
  | .op f k, s => ⟨f, (h f s).1⟩ :: log h (k (h f s).1) (h f s).2

/-- The answers in a log are the handler's. -/
theorem answer_of_mem_log {h : Handler F R σ} {p : Prog F R α} {s : σ} {e : (f : F) × R f}
    (he : e ∈ log h p s) : ∃ s', e.2 = (h e.1 s').1 := by
  induction p generalizing s with
  | pure a => cases he
  | op f k ih =>
    rcases List.mem_cons.mp he with rfl | he
    · exact ⟨s, rfl⟩
    · exact ih _ he

@[simp] theorem log_pure (h : Handler F R σ) (a : α) (s : σ) :
    log h (Pure.pure a : Prog F R α) s = [] := rfl

theorem run_bind (h : Handler F R σ) (p : Prog F R α) (g : α → Prog F R β) (s : σ) :
    run h (p >>= g) s = run h (g (run h p s).1) (run h p s).2 := by
  show run h (p.bind g) s = _
  induction p generalizing s with
  | pure a => rfl
  | op f k ih => exact ih (h f s).1 (h f s).2

theorem log_bind (h : Handler F R σ) (p : Prog F R α) (g : α → Prog F R β) (s : σ) :
    log h (p >>= g) s = log h p s ++ log h (g (run h p s).1) (run h p s).2 := by
  show log h (p.bind g) s = _
  induction p generalizing s with
  | pure a => rfl
  | op f k ih =>
    show ⟨f, (h f s).1⟩ :: log h ((k (h f s).1).bind g) (h f s).2 = _
    rw [ih (h f s).1 (h f s).2]
    rfl

/-- The states that a run goes through, from the first to the last. -/
def states (h : Handler F R σ) : Prog F R α → σ → List σ
  | .pure _, s => [s]
  | .op f k, s => s :: states h (k (h f s).1) (h f s).2

theorem start_mem_states (h : Handler F R σ) (p : Prog F R α) (s : σ) : s ∈ states h p s := by
  cases p with
  | pure a => exact List.mem_singleton_self s
  | op f k => exact List.mem_cons_self

theorem run_mem_states (h : Handler F R σ) (p : Prog F R α) (s : σ) :
    (run h p s).2 ∈ states h p s := by
  induction p generalizing s with
  | pure a => exact List.mem_singleton_self s
  | op f k ih => exact List.mem_cons_of_mem _ (ih (h f s).1 (h f s).2)

theorem mem_states_bind {h : Handler F R σ} {p : Prog F R α} {g : α → Prog F R β} {s t : σ} :
    t ∈ states h (p >>= g) s ↔
      t ∈ states h p s ∨ t ∈ states h (g (run h p s).1) (run h p s).2 := by
  show t ∈ states h (p.bind g) s ↔ _
  induction p generalizing s with
  | pure a =>
    refine ⟨.inr, fun ht => ht.elim (fun ht => ?_) id⟩
    rw [List.mem_singleton.mp ht]
    exact start_mem_states h (g a) s
  | op f k ih =>
    show t ∈ s :: states h ((k (h f s).1).bind g) (h f s).2 ↔
      t ∈ s :: states h (k (h f s).1) (h f s).2 ∨ _
    rw [List.mem_cons, List.mem_cons, ih (h f s).1, or_assoc]
    exact Iff.rfl

/-! ## Guarded programs

`Guarded A P Q p` reads off the tree of `p`: every operation on every branch satisfies `P` and
every leaf satisfies `Q`, where a branch is followed only for answers allowed by `A`. -/

/-- Through answers allowed by `A`, only operations in `P` and results in `Q` are reached. -/
def Guarded (A : (f : F) → R f → Prop) (P : F → Prop) (Q : α → Prop) : Prog F R α → Prop
  | .pure a => Q a
  | .op f k => P f ∧ ∀ r, A f r → Guarded A P Q (k r)

variable {A : (f : F) → R f → Prop} {P : F → Prop}

theorem guarded_bind {Q : α → Prop} {Q' : β → Prop} {p : Prog F R α} {g : α → Prog F R β}
    (hp : Guarded A P Q p) (hg : ∀ a, Q a → Guarded A P Q' (g a)) :
    Guarded A P Q' (p >>= g) := by
  show Guarded A P Q' (p.bind g)
  induction p with
  | pure a => exact hg a hp
  | op f k ih => exact ⟨hp.1, fun r hr => ih r (hp.2 r hr)⟩

theorem Guarded.mono {P' : F → Prop} {Q Q' : α → Prop} {p : Prog F R α}
    (hp : Guarded A P Q p) (hP : ∀ f, P f → P' f) (hQ : ∀ a, Q a → Q' a) :
    Guarded A P' Q' p := by
  induction p with
  | pure a => exact hQ a hp
  | op f k ih => exact ⟨hP f hp.1, fun r hr => ih r (hp.2 r hr)⟩

/-- A guarded program issues only operations that satisfy the guard, in every run whose
answers are allowed. -/
theorem Guarded.of_answers {Q : α → Prop} {h : Handler F R σ} {p : Prog F R α}
    (hp : Guarded A P Q p) (s : σ) (hA : ∀ e ∈ log h p s, A e.1 e.2) : ∀ e ∈ log h p s, P e.1 := by
  induction p generalizing s with
  | pure a => intro e he; exact absurd he (by simp [log])
  | op f k ih =>
    intro e he
    have hfirst : A f (h f s).1 := hA _ List.mem_cons_self
    rcases List.mem_cons.mp he with rfl | he
    · exact hp.1
    · exact ih _ (hp.2 _ hfirst) _ (fun e he => hA e (List.mem_cons_of_mem _ he)) e he

/-- Every answer is allowed. -/
theorem Guarded.of_mem_log {Q : α → Prop} {h : Handler F R σ} (hA : ∀ f s, A f (h f s).1)
    {p : Prog F R α} (hp : Guarded A P Q p) (s : σ) : ∀ e ∈ log h p s, P e.1 :=
  hp.of_answers s fun e he => by
    obtain ⟨t, ht⟩ := answer_of_mem_log he
    rw [ht]
    exact hA e.1 t

/-- An invariant of the guarded operations holds at the end of the run. -/
theorem Guarded.run_invariant {Q : α → Prop} {I : σ → Prop} {h : Handler F R σ}
    (hstep : ∀ f s, P f → I s → A f (h f s).1 ∧ I (h f s).2) {p : Prog F R α}
    (hp : Guarded A P Q p) {s : σ} (hs : I s) : I (run h p s).2 := by
  induction p generalizing s with
  | pure a => exact hs
  | op f k ih =>
    obtain ⟨hA, hI⟩ := hstep f s hp.1 hs
    exact ih _ (hp.2 _ hA) hI

/-- The result of a run is one of those that the tree allows. -/
theorem Guarded.run_result {Q : α → Prop} {h : Handler F R σ} (hA : ∀ f s, A f (h f s).1)
    {p : Prog F R α} (hp : Guarded A P Q p) (s : σ) : Q (run h p s).1 := by
  induction p generalizing s with
  | pure a => exact hp
  | op f k ih => exact ih _ (hp.2 _ (hA f s)) _

/-- Two handlers run a program alike when the one answers as the other does on a view of its state,
and moves that view as the other moves its state. -/
theorem Guarded.run_view {τ : Type w} {Q : α → Prop} {h : Handler F R σ} {h' : Handler F R τ}
    {view : σ → τ} (hview : ∀ f s, P f → A f (h f s).1 ∧
      h' f (view s) = ((h f s).1, view (h f s).2)) {p : Prog F R α} (hp : Guarded A P Q p) (s : σ) :
    run h' p (view s) = ((run h p s).1, view (run h p s).2) ∧ log h' p (view s) = log h p s := by
  induction p generalizing s with
  | pure a => exact ⟨rfl, rfl⟩
  | op f k ih =>
    obtain ⟨hA, heq⟩ := hview f s hp.1
    obtain ⟨hrun, hlog⟩ := ih _ (hp.2 _ hA) (h f s).2
    rw [run, log, heq]
    exact ⟨hrun, by rw [hlog]; rfl⟩

end Prog

/-! ## Programs that may fail

A fallible program is `ExceptT ε` over `Prog`. `exec` runs it; the equations below are the only
way the rest of the development looks at a run, so no proof unfolds `ExceptT`. -/

section Exec

variable {F : Type} {R : F → Type} {σ ε ε' α β : Type}

/-- A program that may fail with an error of type `ε`. -/
abbrev Action (F : Type) (R : F → Type) (ε α : Type) : Type := ExceptT ε (Prog F R) α

/-- Run a fallible program: its result or error, and the state it leaves. -/
def exec (h : Handler F R σ) (x : Action F R ε α) (s : σ) : Except ε α × σ :=
  Prog.run h x.run s

/-- The operations a run of a fallible program issues. -/
def execLog (h : Handler F R σ) (x : Action F R ε α) (s : σ) : List ((f : F) × R f) :=
  Prog.log h x.run s

/-- Run `x` and hand its outcome, error or not, to the continuation. -/
def attempt (x : Action F R ε α) : Action F R ε' (Except ε α) :=
  ExceptT.mk (x.run >>= fun r => pure (.ok r))

/-- Run `x` for its effect and drop its outcome, error or not. -/
def ignore (x : Action F R ε α) : Action F R ε' Unit :=
  ExceptT.mk (x.run >>= fun _ => pure (.ok ()))

/-- Run `x`, translating its error. -/
def mapError (e : ε → ε') (x : Action F R ε α) : Action F R ε' α :=
  ExceptT.mk (x.run >>= fun r => pure (r.mapError e))

/-- Return a result or raise an error that is already at hand. -/
def ofResult (r : Except ε α) : Action F R ε α :=
  ExceptT.mk (pure r)

/-- One operation, whose answer is read as a result or an error. -/
def call (f : F) (k : R f → Except ε α) : Action F R ε α :=
  ExceptT.mk (.op f fun r => pure (k r))

variable (h : Handler F R σ)

@[simp] theorem exec_pure (a : α) (s : σ) :
    exec h (pure a : Action F R ε α) s = (.ok a, s) := rfl

@[simp] theorem exec_ofResult (r : Except ε α) (s : σ) :
    exec h (ofResult r) s = (r, s) := rfl

@[simp] theorem exec_call (f : F) (k : R f → Except ε α) (s : σ) :
    exec h (call f k) s = (k (h f s).1, (h f s).2) := rfl

theorem exec_bind (x : Action F R ε α) (g : α → Action F R ε β) (s : σ) :
    exec h (x >>= g) s =
      match exec h x s with
      | (.ok a, s') => exec h (g a) s'
      | (.error e, s') => (.error e, s') := by
  show Prog.run h (x.run >>= ExceptT.bindCont g) s = _
  rw [Prog.run_bind]
  show _ = match Prog.run h x.run s with
      | (.ok a, s') => exec h (g a) s'
      | (.error e, s') => (.error e, s')
  rcases Prog.run h x.run s with ⟨r | r, s'⟩ <;> rfl

variable {h} in
theorem exec_bind_ok {x : Action F R ε α} {s s' : σ} {a : α} (hx : exec h x s = (.ok a, s'))
    (g : α → Action F R ε β) : exec h (x >>= g) s = exec h (g a) s' := by
  rw [exec_bind, hx]

variable {h} in
theorem exec_bind_error {x : Action F R ε α} {s s' : σ} {e : ε}
    (hx : exec h x s = (.error e, s')) (g : α → Action F R ε β) :
    exec h (x >>= g) s = (.error e, s') := by
  rw [exec_bind, hx]

variable {h} in
/-- A sequence succeeds when both parts do. -/
theorem exec_bind_eq_ok {x : Action F R ε α} {g : α → Action F R ε β} {s s' : σ} {b : β}
    (hb : exec h (x >>= g) s = (.ok b, s')) :
    ∃ a s₁, exec h x s = (.ok a, s₁) ∧ exec h (g a) s₁ = (.ok b, s') := by
  rcases hx : exec h x s with ⟨e | a, s₁⟩
  · rw [exec_bind_error hx] at hb
    cases hb
  · rw [exec_bind_ok hx] at hb
    exact ⟨a, s₁, rfl, hb⟩

variable {h} in
theorem exec_ofResult_bind_eq_ok {r : Except ε α} {g : α → Action F R ε β} {s s' : σ} {b : β}
    (hb : exec h (ofResult r >>= g) s = (.ok b, s')) :
    ∃ a, r = .ok a ∧ exec h (g a) s = (.ok b, s') := by
  obtain ⟨a, s₁, hr, hg⟩ := exec_bind_eq_ok hb
  rw [exec_ofResult] at hr
  obtain ⟨hok, rfl⟩ := Prod.mk.inj hr
  exact ⟨a, hok, hg⟩

variable {h} in
theorem exec_eq_ok_of_isOk {x : Action F R ε PUnit} {s : σ} (hx : (exec h x s).1.isOk = true) :
    exec h x s = (.ok (), (exec h x s).2) := by
  rcases hrun : exec h x s with ⟨e | ⟨⟩, s'⟩
  · rw [hrun] at hx
    cases hx
  · rfl

theorem exec_attempt (x : Action F R ε α) (s : σ) :
    exec h (attempt x : Action F R ε' (Except ε α)) s =
      (.ok (exec h x s).1, (exec h x s).2) := by
  show Prog.run h (x.run >>= fun r => pure (Except.ok r)) s = _
  rw [Prog.run_bind]
  rfl

theorem exec_attempt_bind (x : Action F R ε α) (g : Except ε α → Action F R ε' β) (s : σ) :
    exec h (attempt x >>= g) s = exec h (g (exec h x s).1) (exec h x s).2 :=
  exec_bind_ok (exec_attempt h x s) g

theorem exec_ignore (x : Action F R ε α) (s : σ) :
    exec h (ignore x : Action F R ε' Unit) s = (.ok (), (exec h x s).2) := by
  show Prog.run h (x.run >>= fun _ => pure (Except.ok ())) s = _
  rw [Prog.run_bind]
  rfl

theorem exec_ignore_bind (x : Action F R ε α) (g : Unit → Action F R ε' β) (s : σ) :
    exec h (ignore x >>= g) s = exec h (g ()) (exec h x s).2 :=
  exec_bind_ok (exec_ignore h x s) g

theorem exec_mapError (e : ε → ε') (x : Action F R ε α) (s : σ) :
    exec h (mapError e x) s = ((exec h x s).1.mapError e, (exec h x s).2) := by
  show Prog.run h (x.run >>= fun r => pure (r.mapError e)) s = _
  rw [Prog.run_bind]
  rfl

theorem exec_mapError_ok {e : ε → ε'} {x : Action F R ε α} {a : α} {s s' : σ}
    (hx : exec h x s = (.ok a, s')) : exec h (mapError e x) s = (.ok a, s') := by
  rw [exec_mapError, hx]
  rfl

/-! ### Logs of fallible programs -/

@[simp] theorem execLog_call (f : F) (k : R f → Except ε α) (s : σ) :
    execLog h (call f k) s = [⟨f, (h f s).1⟩] := rfl

theorem execLog_bind (x : Action F R ε α) (g : α → Action F R ε β) (s : σ) :
    execLog h (x >>= g) s = execLog h x s ++
      match exec h x s with
      | (.ok a, s') => execLog h (g a) s'
      | (.error _, _) => [] := by
  show Prog.log h (x.run >>= ExceptT.bindCont g) s = _
  rw [Prog.log_bind]
  show Prog.log h x.run s ++ _ = Prog.log h x.run s ++
    match Prog.run h x.run s with
    | (.ok a, s') => execLog h (g a) s'
    | (.error _, _) => []
  rcases Prog.run h x.run s with ⟨r | r, s'⟩ <;> rfl

variable {h} in
theorem execLog_bind_ok {x : Action F R ε α} {s s' : σ} {a : α} (hx : exec h x s = (.ok a, s'))
    (g : α → Action F R ε β) :
    execLog h (x >>= g) s = execLog h x s ++ execLog h (g a) s' := by
  rw [execLog_bind, hx]

variable {h} in
theorem execLog_bind_error {x : Action F R ε α} {s s' : σ} {e : ε}
    (hx : exec h x s = (.error e, s')) (g : α → Action F R ε β) :
    execLog h (x >>= g) s = execLog h x s := by
  rw [execLog_bind, hx, List.append_nil]

variable {h} in
/-- What a sequence does, its first part does, or its second part once the first has succeeded. -/
theorem mem_execLog_bind {x : Action F R ε α} {g : α → Action F R ε β} {s : σ}
    {e : (f : F) × R f} (he : e ∈ execLog h (x >>= g) s) :
    e ∈ execLog h x s ∨ ∃ a s', exec h x s = (.ok a, s') ∧ e ∈ execLog h (g a) s' := by
  rw [execLog_bind, List.mem_append] at he
  refine he.imp_right fun he => ?_
  rcases hx : exec h x s with ⟨r | a, s'⟩
  · rw [hx] at he
    cases he
  · rw [hx] at he
    exact ⟨a, s', rfl, he⟩

variable {h} in
theorem mem_execLog_bind_left {x : Action F R ε α} {g : α → Action F R ε β} {s : σ}
    {e : (f : F) × R f} (he : e ∈ execLog h x s) : e ∈ execLog h (x >>= g) s := by
  rw [execLog_bind, List.mem_append]
  exact .inl he

theorem execLog_attempt (x : Action F R ε α) (s : σ) :
    execLog h (attempt x : Action F R ε' (Except ε α)) s = execLog h x s := by
  show Prog.log h (x.run >>= fun r => pure (Except.ok r)) s = _
  rw [Prog.log_bind, Prog.log_pure, List.append_nil]
  rfl

theorem execLog_attempt_bind (x : Action F R ε α) (g : Except ε α → Action F R ε' β) (s : σ) :
    execLog h (attempt x >>= g) s
      = execLog h x s ++ execLog h (g (exec h x s).1) (exec h x s).2 := by
  rw [execLog_bind_ok (exec_attempt h x s), execLog_attempt]

theorem execLog_ignore (x : Action F R ε α) (s : σ) :
    execLog h (ignore x : Action F R ε' Unit) s = execLog h x s := by
  show Prog.log h (x.run >>= fun _ => pure (Except.ok ())) s = _
  rw [Prog.log_bind, Prog.log_pure, List.append_nil]
  rfl

theorem execLog_ignore_bind (x : Action F R ε α) (g : Unit → Action F R ε' β) (s : σ) :
    execLog h (ignore x >>= g) s = execLog h x s ++ execLog h (g ()) (exec h x s).2 := by
  rw [execLog_bind_ok (exec_ignore h x s), execLog_ignore]

/-! ### Recording operations -/

/-- Answer like `h`, and remember whether an operation in `P` has been issued. -/
def recording (h : Handler F R σ) (P : F → Bool) : Handler F R (σ × Bool) :=
  fun f s => ((h f s.1).1, (h f s.1).2, s.2 || P f)

/-- Every state that a run goes through satisfies `P`. -/
def Passes (P : σ → Prop) (x : Action F R ε α) (s : σ) : Prop := ∀ t ∈ x.run.states h s, P t

section Passes

variable {h} {P : σ → Prop} {s s' : σ}

theorem Passes.start {x : Action F R ε α} (hx : Passes h P x s) : P s :=
  hx s (Prog.start_mem_states h x.run s)

theorem Passes.last {x : Action F R ε α} (hx : Passes h P x s) : P (exec h x s).2 :=
  hx _ (Prog.run_mem_states h x.run s)

theorem passes_call {f : F} {k : R f → Except ε α} :
    Passes h P (call f k : Action F R ε α) s ↔ P s ∧ P (h f s).2 := by
  show (∀ t ∈ [s, (h f s).2], P t) ↔ _
  simp

theorem passes_pure {a : α} : Passes h P (pure a : Action F R ε α) s ↔ P s := by
  show (∀ t ∈ [s], P t) ↔ _
  simp

theorem passes_throw {e : ε} : Passes h P (throw e : Action F R ε α) s ↔ P s := by
  show (∀ t ∈ [s], P t) ↔ _
  simp

/-- A run of a program that only looks at the result of `x` goes through the same states. -/
theorem passes_map {x : Action F R ε α} {f : Except ε α → Except ε' β} :
    Passes h P (ExceptT.mk (x.run >>= fun r => pure (f r)) : Action F R ε' β) s ↔
      Passes h P x s := by
  show (∀ t ∈ Prog.states h (x.run >>= fun r => pure (f r)) s, P t) ↔ _
  refine ⟨fun hall t ht => hall t (Prog.mem_states_bind.mpr (.inl ht)), fun hall t ht => ?_⟩
  rcases Prog.mem_states_bind.mp ht with ht | ht
  · exact hall t ht
  · rw [List.mem_singleton.mp ht]
    exact hall _ (Prog.run_mem_states h x.run s)

theorem passes_mapError {e : ε → ε'} {x : Action F R ε α} :
    Passes h P (mapError e x) s ↔ Passes h P x s := passes_map

theorem passes_attempt {x : Action F R ε α} :
    Passes h P (attempt x : Action F R ε' (Except ε α)) s ↔ Passes h P x s := passes_map

theorem passes_ignore {x : Action F R ε α} :
    Passes h P (ignore x : Action F R ε' Unit) s ↔ Passes h P x s := passes_map

theorem passes_bind_ok {x : Action F R ε α} {a : α} (hx : exec h x s = (.ok a, s'))
    {g : α → Action F R ε β} :
    Passes h P (x >>= g) s ↔ Passes h P x s ∧ Passes h P (g a) s' := by
  have hrun : Prog.run h x.run s = (.ok a, s') := hx
  unfold Passes
  show (∀ t ∈ Prog.states h (x.run >>= ExceptT.bindCont g) s, P t) ↔ _
  simp only [Prog.mem_states_bind, hrun, or_imp, forall_and]
  exact Iff.rfl

theorem passes_bind_error {x : Action F R ε α} {e : ε} (hx : exec h x s = (.error e, s'))
    {g : α → Action F R ε β} : Passes h P (x >>= g) s ↔ Passes h P x s := by
  have hrun : Prog.run h x.run s = (.error e, s') := hx
  have hlast : s' ∈ x.run.states h s := by
    have hmem := Prog.run_mem_states h x.run s
    rwa [hrun] at hmem
  unfold Passes
  show (∀ t ∈ Prog.states h (x.run >>= ExceptT.bindCont g) s, P t) ↔ _
  simp only [Prog.mem_states_bind, hrun, or_imp, forall_and]
  refine and_iff_left_of_imp fun hall t ht => ?_
  rw [List.mem_singleton.mp ht]
  exact hall s' hlast

end Passes

/-! ### What a run issues -/

/-- Every operation that the run issues satisfies `P` with its answer. -/
def Issues (P : (f : F) → R f → Prop) (x : Action F R ε α) (s : σ) : Prop :=
  ∀ e ∈ execLog h x s, P e.1 e.2

section Issues

variable {h} {P : (f : F) → R f → Prop} {s s' : σ}

theorem Issues.mono {P' : (f : F) → R f → Prop} {x : Action F R ε α} (hx : Issues h P x s)
    (hP : ∀ f r, P f r → P' f r) : Issues h P' x s :=
  fun e he => hP e.1 e.2 (hx e he)

theorem issues_call {f : F} {k : R f → Except ε α} :
    Issues h P (call f k) s ↔ P f (h f s).1 := by
  show (∀ e ∈ [(⟨f, (h f s).1⟩ : (f : F) × R f)], P e.1 e.2) ↔ _
  simp

theorem issues_pure {a : α} : Issues h P (pure a : Action F R ε α) s := by
  intro e he
  cases he

theorem issues_bind {x : Action F R ε α} {g : α → Action F R ε β} (hx : Issues h P x s)
    (hg : ∀ a s', exec h x s = (.ok a, s') → Issues h P (g a) s') : Issues h P (x >>= g) s := by
  intro e he
  rcases mem_execLog_bind he with he | ⟨a, s', hrun, he⟩
  · exact hx e he
  · exact hg a s' hrun e he

theorem Issues.left {x : Action F R ε α} {g : α → Action F R ε β} (hx : Issues h P (x >>= g) s) :
    Issues h P x s := fun e he => hx e (mem_execLog_bind_left he)

theorem Issues.right {x : Action F R ε α} {g : α → Action F R ε β} {a : α}
    (hx : Issues h P (x >>= g) s) (hrun : exec h x s = (.ok a, s')) : Issues h P (g a) s' := by
  intro e he
  refine hx e ?_
  rw [execLog_bind_ok hrun]
  exact List.mem_append_right _ he

theorem issues_ignore {x : Action F R ε α} :
    Issues h P (ignore x : Action F R ε' Unit) s ↔ Issues h P x s := by
  unfold Issues
  rw [execLog_ignore]

theorem issues_attempt {x : Action F R ε α} :
    Issues h P (attempt x : Action F R ε' (Except ε α)) s ↔ Issues h P x s := by
  unfold Issues
  rw [execLog_attempt]

/-- What the operations of a run preserve holds at its end. -/
theorem Issues.exec_invariant {x : Action F R ε α} {I : σ → Prop} (hx : Issues h P x s)
    (hstep : ∀ f s, P f (h f s).1 → I s → I (h f s).2) (hs : I s) : I (exec h x s).2 := by
  unfold Issues execLog at hx
  unfold exec
  generalize x.run = p at hx ⊢
  induction p generalizing s with
  | pure a => exact hs
  | op f k ih =>
    have hf : P f (h f s).1 := hx ⟨f, (h f s).1⟩ List.mem_cons_self
    exact ih _ (hstep f s hf hs) fun e he => hx e (List.mem_cons_of_mem _ he)

/-- The rule for a loop: a round that starts in `I` issues only operations in `P`, and `I` survives
these. -/
theorem issues_forM {f : α → Action F R ε PUnit} {I : σ → Prop} {l : List α}
    (hround : ∀ x ∈ l, ∀ s, I s → Issues h P (f x) s)
    (hstep : ∀ f s, P f (h f s).1 → I s → I (h f s).2) (hs : I s) : Issues h P (forM l f) s := by
  induction l generalizing s with
  | nil => exact issues_pure
  | cons x l ih =>
    have hx := hround x List.mem_cons_self s hs
    rw [List.forM_cons]
    refine issues_bind hx fun _ s' hrun =>
      ih (fun y hy => hround y (List.mem_cons_of_mem x hy)) ?_
    have hend := hx.exec_invariant hstep hs
    rwa [hrun] at hend

/-- From `s` the run of `x` comes to run `y` from `s'`, after operations that satisfy `P`. -/
structure ComesTo (h : Handler F R σ) (P : (f : F) → R f → Prop) (x : Action F R ε α) (s : σ)
    (y : Action F R ε α) (s' : σ) : Prop where
  exec_eq : exec h x s = exec h y s'
  log_eq : ∃ before, (∀ e ∈ before, P e.1 e.2) ∧ execLog h x s = before ++ execLog h y s'

theorem comesTo_refl (x : Action F R ε α) (s : σ) : ComesTo h P x s x s :=
  ⟨rfl, [], by simp, rfl⟩

theorem ComesTo.after {x : Action F R ε α} {g : α → Action F R ε β} {a : α} {y : Action F R ε β}
    {t : σ} (hy : ComesTo h P (g a) s' y t) (hrun : exec h x s = (.ok a, s'))
    (hx : Issues h P x s) : ComesTo h P (x >>= g) s y t := by
  obtain ⟨before, hbefore, hlog⟩ := hy.log_eq
  refine ⟨(exec_bind_ok hrun g).trans hy.exec_eq, execLog h x s ++ before, fun e he => ?_, ?_⟩
  · exact (List.mem_append.mp he).elim (hx e) (hbefore e)
  · rw [execLog_bind_ok hrun, hlog, List.append_assoc]

theorem ComesTo.mem {x y : Action F R ε α} (hx : ComesTo h P x s y s') {e : (f : F) × R f}
    (he : e ∈ execLog h y s') : e ∈ execLog h x s := by
  obtain ⟨before, -, hlog⟩ := hx.log_eq
  exact hlog ▸ List.mem_append_right _ he

theorem ComesTo.mem_or {x y : Action F R ε α} (hx : ComesTo h P x s y s') {e : (f : F) × R f}
    (he : e ∈ execLog h x s) : P e.1 e.2 ∨ e ∈ execLog h y s' := by
  obtain ⟨before, hbefore, hlog⟩ := hx.log_eq
  rw [hlog, List.mem_append] at he
  exact he.imp_left (hbefore e)

end Issues

/-! ### Two handlers

The state counts the operations, so that how far a run goes can be read off it. -/

section Agreement

variable {h h' : Handler F R σ} (clock : σ → Nat)

theorem clock_le_exec (hclock : ∀ f s, clock (h f s).2 = clock s + 1) (x : Action F R ε α)
    (s : σ) : clock s ≤ clock (exec h x s).2 := by
  unfold exec
  generalize x.run = p
  induction p generalizing s with
  | pure a => exact Nat.le_refl _
  | op f k ih =>
    have hrest := ih (h f s).1 (h f s).2
    rw [hclock] at hrest
    exact Nat.le_of_succ_le hrest

/-- A run is the same under a handler that agrees with its own as far as it goes. -/
theorem exec_congr (hclock : ∀ f s, clock (h f s).2 = clock s + 1) {x : Action F R ε α} {s : σ}
    (hagree : ∀ f t, clock s ≤ clock t → clock t < clock (exec h x s).2 → h' f t = h f t) :
    exec h' x s = exec h x s := by
  have hlater := fun p => clock_le_exec clock hclock (ExceptT.mk p : Action F R ε α)
  unfold exec at hagree hlater ⊢
  generalize x.run = p at hagree ⊢
  induction p generalizing s with
  | pure a => rfl
  | op f k ih =>
    have hnext : clock s < clock (Prog.run h (k (h f s).1) (h f s).2).2 := by
      have hrest := hlater (k (h f s).1) (h f s).2
      rw [hclock] at hrest
      exact hrest
    have hfirst : h' f s = h f s := hagree f s (Nat.le_refl _) hnext
    show Prog.run h' (k (h' f s).1) (h' f s).2 = _
    rw [hfirst]
    refine ih _ fun g t ht => hagree g t ?_
    rw [hclock] at ht
    exact Nat.le_of_succ_le ht

end Agreement

/-! ### Loops -/

section Loops

variable {h : Handler F R σ}

/-- The rule for a loop with an accumulator: what one round preserves, and extends to the element
it has done, a whole run that succeeds establishes for the list. -/
theorem exec_foldlM_eq_ok {f : β → α → Action F R ε β} {I : List α → β → σ → Prop} {l : List α}
    {b b' : β} {s s' : σ}
    (hstep : ∀ done x rest b b' s s', l = done ++ x :: rest → I done b s →
      exec h (f b x) s = (.ok b', s') → I (done ++ [x]) b' s')
    (hs : I [] b s) (hrun : exec h (l.foldlM f b) s = (.ok b', s')) : I l b' s' := by
  suffices hgen : ∀ (todo done : List α) (b : β) (s : σ), l = done ++ todo → I done b s →
      exec h (todo.foldlM f b) s = (.ok b', s') → I l b' s' from hgen l [] b s rfl hs hrun
  intro todo
  induction todo with
  | nil =>
    intro done b s hl hI hrun
    rw [List.append_nil] at hl
    obtain ⟨hb, rfl⟩ := Prod.mk.inj hrun
    obtain rfl := Except.ok.inj hb
    exact hl ▸ hI
  | cons x todo ih =>
    intro done b s hl hI hrun
    rw [List.foldlM_cons] at hrun
    obtain ⟨b₁, s₁, hx, hrest⟩ := exec_bind_eq_ok hrun
    exact ih (done ++ [x]) b₁ s₁ (by simp [hl]) (hstep done x todo b b₁ s s₁ hl hI hx) hrest

/-- The rule for a loop with an accumulator whose rounds all succeed. -/
theorem exec_foldlM_ok {f : β → α → Action F R ε β} {I : List α → β → σ → Prop} {l : List α}
    {b : β} {s : σ}
    (hstep : ∀ done x rest b s, l = done ++ x :: rest → I done b s →
      ∃ b' s', exec h (f b x) s = (.ok b', s') ∧ I (done ++ [x]) b' s')
    (hs : I [] b s) : ∃ b' s', exec h (l.foldlM f b) s = (.ok b', s') ∧ I l b' s' := by
  suffices hgen : ∀ (todo done : List α) (b : β) (s : σ), l = done ++ todo → I done b s →
      ∃ b' s', exec h (todo.foldlM f b) s = (.ok b', s') ∧ I l b' s' from hgen l [] b s rfl hs
  intro todo
  induction todo with
  | nil =>
    intro done b s hl hI
    rw [List.append_nil] at hl
    exact ⟨b, s, rfl, hl ▸ hI⟩
  | cons x todo ih =>
    intro done b s hl hI
    obtain ⟨b₁, s₁, hx, hI₁⟩ := hstep done x todo b s hl hI
    obtain ⟨b', s', hrest, hI'⟩ := ih (done ++ [x]) b₁ s₁ (by simp [hl]) hI₁
    exact ⟨b', s', by rw [List.foldlM_cons, exec_bind_ok hx, hrest], hI'⟩

theorem forM_eq_foldlM (l : List α) (f : α → Action F R ε PUnit) :
    forM l f = l.foldlM (fun _ x => f x) () := by
  induction l with
  | nil => rfl
  | cons x l ih => rw [List.forM_cons, List.foldlM_cons, ih]

theorem forM_map (l : List β) (g : β → α) (f : α → Action F R ε PUnit) :
    forM (l.map g) f = forM l fun x => f (g x) := by
  induction l with
  | nil => rfl
  | cons x l ih => rw [List.map_cons, List.forM_cons, List.forM_cons, ih]

theorem exec_forM_eq_ok {f : α → Action F R ε PUnit} {I : List α → σ → Prop} {l : List α}
    {s s' : σ}
    (hstep : ∀ done x rest s s', l = done ++ x :: rest → I done s →
      exec h (f x) s = (.ok (), s') → I (done ++ [x]) s')
    (hs : I [] s) (hrun : exec h (forM l f) s = (.ok (), s')) : I l s' := by
  rw [forM_eq_foldlM] at hrun
  exact exec_foldlM_eq_ok (I := fun done _ s => I done s)
    (fun done x rest _ _ s s' => hstep done x rest s s') hs hrun

theorem exec_forM_ok {f : α → Action F R ε PUnit} {I : List α → σ → Prop} {l : List α} {s : σ}
    (hstep : ∀ done x rest s, l = done ++ x :: rest → I done s →
      ∃ s', exec h (f x) s = (.ok (), s') ∧ I (done ++ [x]) s')
    (hs : I [] s) : ∃ s', exec h (forM l f) s = (.ok (), s') ∧ I l s' := by
  rw [forM_eq_foldlM]
  obtain ⟨⟨⟩, s', hrun, hI⟩ := exec_foldlM_ok (I := fun done (_ : PUnit) s => I done s)
    (fun done x rest _ s hl hI => ⟨(), hstep done x rest s hl hI⟩) hs
  exact ⟨s', hrun, hI⟩

/-- The rule for a loop whose rounds succeed as long as their answers satisfy `P`. -/
theorem exec_forM_ok_of_issues {P : (f : F) → R f → Prop} {f : α → Action F R ε PUnit}
    {I : List α → σ → Prop} {l : List α} {s : σ}
    (hstep : ∀ done x rest s, l = done ++ x :: rest → I done s → Issues h P (f x) s →
      ∃ s', exec h (f x) s = (.ok (), s') ∧ I (done ++ [x]) s')
    (hs : I [] s) (hissues : Issues h P (forM l f) s) :
    ∃ s', exec h (forM l f) s = (.ok (), s') ∧ I l s' := by
  suffices hgen : ∀ (todo done : List α) (s : σ), l = done ++ todo → I done s →
      Issues h P (forM todo f) s → ∃ s', exec h (forM todo f) s = (.ok (), s') ∧ I l s' from
    hgen l [] s rfl hs hissues
  intro todo
  induction todo with
  | nil =>
    intro done s hl hI _
    rw [List.append_nil] at hl
    exact ⟨s, rfl, hl ▸ hI⟩
  | cons x todo ih =>
    intro done s hl hI hissues
    rw [List.forM_cons] at hissues
    obtain ⟨s₁, hx, hI₁⟩ := hstep done x todo s hl hI hissues.left
    obtain ⟨s', hrest, hI'⟩ := ih (done ++ [x]) s₁ (by simp [hl]) hI₁ (hissues.right hx)
    exact ⟨s', by rw [List.forM_cons, exec_bind_ok hx, hrest], hI'⟩

/-- A loop that succeeds has done every element. -/
theorem exec_of_mem_forM {f : α → Action F R ε PUnit} {l : List α} {s s' : σ}
    (hrun : exec h (forM l f) s = (.ok (), s')) {x : α} (hx : x ∈ l) :
    ∃ s₁ s₂, exec h (f x) s₁ = (.ok (), s₂) := by
  refine exec_forM_eq_ok (I := fun done _ => ∀ x ∈ done, ∃ s₁ s₂, exec h (f x) s₁ = (.ok (), s₂))
    (fun done y rest s₁ s₂ _ hdone hy x hx => ?_) (fun x hx => by cases hx) hrun x hx
  rcases List.mem_append.mp hx with hx | hx
  · exact hdone x hx
  · rw [List.mem_singleton.mp hx]
    exact ⟨s₁, s₂, hy⟩

/-- What a loop issues is issued by a round, after rounds that have succeeded. -/
theorem mem_execLog_forM {f : α → Action F R ε PUnit} {l : List α} {s : σ} {e : (f : F) × R f}
    (he : e ∈ execLog h (forM l f) s) :
    ∃ done x rest s', l = done ++ x :: rest ∧ exec h (forM done f) s = (.ok (), s') ∧
      e ∈ execLog h (f x) s' := by
  induction l generalizing s with
  | nil => cases he
  | cons y l ih =>
    rw [List.forM_cons] at he
    rcases mem_execLog_bind he with hy | ⟨⟨⟩, s₁, hrun, hrest⟩
    · exact ⟨[], y, l, s, rfl, rfl, hy⟩
    · obtain ⟨done, x, rest, s', rfl, hdone, hx⟩ := ih hrest
      exact ⟨y :: done, x, rest, s', rfl, by rw [List.forM_cons, exec_bind_ok hrun, hdone], hx⟩

/-- The rule for a loop that may stop early: rounds that succeed keep `I`, and `Q` holds wherever
the loop ends. -/
theorem exec_forM_until {f : α → Action F R ε PUnit} {I Q : σ → Prop} {l : List α} {s : σ}
    (hok : ∀ x ∈ l, ∀ s s', I s → exec h (f x) s = (.ok (), s') → I s')
    (herror : ∀ x ∈ l, ∀ s s' e, I s → exec h (f x) s = (.error e, s') → Q s')
    (hend : ∀ s, I s → Q s) (hs : I s) : Q (exec h (forM l f) s).2 := by
  induction l generalizing s with
  | nil => exact hend s hs
  | cons x l ih =>
    rw [List.forM_cons]
    rcases hrun : exec h (f x) s with ⟨e | ⟨⟩, s₁⟩
    · rw [exec_bind_error hrun]
      exact herror x (by simp) s s₁ e hs hrun
    · rw [exec_bind_ok hrun]
      exact ih (fun y hy => hok y (List.mem_cons_of_mem _ hy))
        (fun y hy => herror y (List.mem_cons_of_mem _ hy)) (hok x (by simp) s s₁ hs hrun)

/-- What every round keeps, failed or not, the loop keeps. -/
theorem exec_forM_invariant {f : α → Action F R ε PUnit} {I : σ → Prop} {l : List α} {s : σ}
    (hround : ∀ x ∈ l, ∀ s, I s → I (exec h (f x) s).2) (hs : I s) :
    I (exec h (forM l f) s).2 := by
  refine exec_forM_until (I := I) (fun x hx s s' hI hrun => ?_) (fun x hx s s' e hI hrun => ?_)
    (fun _ hI => hI) hs
  · have hnext := hround x hx s hI
    rwa [hrun] at hnext
  · have hnext := hround x hx s hI
    rwa [hrun] at hnext

end Loops

/-! ### Guarded programs that may fail -/

variable {A : (f : F) → R f → Prop} {P : F → Prop}

/-- `Guarded` for a fallible program; `Q` speaks about results, not errors. -/
def Emits (A : (f : F) → R f → Prop) (P : F → Prop) (Q : α → Prop) (x : Action F R ε α) : Prop :=
  Prog.Guarded A P (fun r => ∀ a, r = .ok a → Q a) x.run

theorem Emits.mono {P' : F → Prop} {Q Q' : α → Prop} {x : Action F R ε α} (hx : Emits A P Q x)
    (hP : ∀ f, P f → P' f) (hQ : ∀ a, Q a → Q' a) : Emits A P' Q' x :=
  Prog.Guarded.mono hx hP fun _ hr a ha => hQ a (hr a ha)

theorem Emits.exec_invariant {Q : α → Prop} {I : σ → Prop} {h : Handler F R σ}
    {x : Action F R ε α} (hx : Emits A P Q x)
    (hstep : ∀ f s, P f → I s → A f (h f s).1 ∧ I (h f s).2) {s : σ} (hs : I s) :
    I (exec h x s).2 :=
  Prog.Guarded.run_invariant hstep hx hs

theorem Emits.of_exec_ok {Q : α → Prop} {h : Handler F R σ} (hA : ∀ f s, A f (h f s).1)
    {x : Action F R ε α} (hx : Emits A P Q x) {s s' : σ} {a : α}
    (hrun : exec h x s = (.ok a, s')) : Q a :=
  Prog.Guarded.run_result hA hx s a (congrArg Prod.fst hrun)

theorem Emits.exec_view {τ : Type} {Q : α → Prop} {h : Handler F R σ} {h' : Handler F R τ}
    {view : σ → τ} (hview : ∀ f s, P f → A f (h f s).1 ∧
      h' f (view s) = ((h f s).1, view (h f s).2)) {x : Action F R ε α} (hx : Emits A P Q x)
    (s : σ) : exec h' x (view s) = ((exec h x s).1, view (exec h x s).2) ∧
      execLog h' x (view s) = execLog h x s :=
  Prog.Guarded.run_view hview hx s

theorem Emits.of_mem_execLog {Q : α → Prop} {h : Handler F R σ} (hA : ∀ f s, A f (h f s).1)
    {x : Action F R ε α} (hx : Emits A P Q x) (s : σ) : ∀ e ∈ execLog h x s, P e.1 :=
  Prog.Guarded.of_mem_log hA hx s

/-- Where the guard may speak of what has been answered in the run itself. -/
theorem Emits.of_answered {Q : α → Prop} {h : Handler F R σ} {x : Action F R ε α} {s : σ}
    (hx : Emits (fun f r => ⟨f, r⟩ ∈ execLog h x s) P Q x) : ∀ e ∈ execLog h x s, P e.1 :=
  Prog.Guarded.of_answers hx s fun _ he => he

theorem Emits.issues {Q : α → Prop} {h : Handler F R σ} {x : Action F R ε α}
    (hx : Emits (fun _ _ => True) P Q x) (s : σ) : Issues h (fun f _ => P f) x s :=
  hx.of_mem_execLog (fun _ _ => trivial) s

/-- Where every answer is allowed and nothing is asked for, any program will do. -/
theorem emits_true (x : Action F R ε α) :
    Emits (fun _ _ => True) (fun _ => True) (fun _ => True) x := by
  have hprog : ∀ p : Prog F R (Except ε α), Prog.Guarded (fun _ _ => True) (fun _ => True)
      (fun r => ∀ a, r = .ok a → True) p := by
    intro p
    induction p with
    | pure a => exact fun _ _ => trivial
    | op f k ih => exact ⟨trivial, fun r _ => ih r⟩
  exact hprog x.run

theorem emits_pure {Q : α → Prop} {a : α} (h : Q a) :
    Emits A P Q (pure a : Action F R ε α) := by
  rintro _ ⟨⟩
  exact h

theorem emits_ofResult {Q : α → Prop} {r : Except ε α} (h : ∀ a, r = .ok a → Q a) :
    Emits A P Q (ofResult r : Action F R ε α) := h

theorem emits_call {Q : α → Prop} {f : F} {k : R f → Except ε α} (hf : P f)
    (hk : ∀ r, A f r → ∀ a, k r = .ok a → Q a) : Emits A P Q (call f k : Action F R ε α) :=
  ⟨hf, hk⟩

theorem emits_throw {Q : α → Prop} (e : ε) : Emits A P Q (throw e : Action F R ε α) := by
  rintro _ ⟨⟩

theorem emits_bind {Q : α → Prop} {Q' : β → Prop} {x : Action F R ε α}
    {g : α → Action F R ε β} (hx : Emits A P Q x) (hg : ∀ a, Q a → Emits A P Q' (g a)) :
    Emits A P Q' (x >>= g) := by
  show Prog.Guarded A P _ (x.run >>= ExceptT.bindCont g)
  refine Prog.guarded_bind hx fun r hr => ?_
  cases r with
  | ok a => exact hg a (hr a rfl)
  | error e => rintro _ ⟨⟩

theorem emits_attempt {Q : α → Prop} {x : Action F R ε α} (hx : Emits A P Q x) :
    Emits A P (fun r => ∀ a, r = .ok a → Q a) (attempt x : Action F R ε' (Except ε α)) := by
  refine Prog.guarded_bind hx fun r hr => ?_
  rintro _ ⟨⟩
  exact hr

theorem emits_ignore {Q : α → Prop} {x : Action F R ε α} (hx : Emits A P Q x) :
    Emits A P (fun _ => True) (ignore x : Action F R ε' Unit) :=
  Prog.guarded_bind hx fun _ _ _ _ => trivial

theorem emits_mapError {Q : α → Prop} {e : ε → ε'} {x : Action F R ε α} (hx : Emits A P Q x) :
    Emits A P Q (mapError e x) := by
  refine Prog.guarded_bind hx fun r hr => ?_
  intro a ha
  cases r with
  | ok b =>
    cases ha
    exact hr _ rfl
  | error e => cases ha

/-- What every round makes of the accumulator holds of the loop's result. -/
theorem emits_foldlM_of_rounds {Q : β → Prop} {f : β → α → Action F R ε β} {xs : List α}
    (hf : ∀ b, Q b → ∀ x ∈ xs, Emits A P Q (f b x)) {b : β} (hb : Q b) :
    Emits A P Q (xs.foldlM f b) := by
  induction xs generalizing b with
  | nil => exact emits_pure hb
  | cons x xs ih =>
    rw [List.foldlM_cons]
    exact emits_bind (hf b hb x (by simp)) fun b' hb' =>
      ih (fun b hb y hy => hf b hb y (List.mem_cons_of_mem _ hy)) hb'

theorem emits_foldlM {f : β → α → Action F R ε β} {xs : List α}
    (hf : ∀ b, ∀ x ∈ xs, Emits A P (fun _ => True) (f b x)) (b : β) :
    Emits A P (fun _ => True) (xs.foldlM f b) :=
  emits_foldlM_of_rounds (fun b _ => hf b) trivial

theorem emits_forM {f : α → Action F R ε PUnit} {xs : List α}
    (hf : ∀ x ∈ xs, Emits A P (fun _ => True) (f x)) :
    Emits A P (fun _ => True) (forM xs f) := by
  rw [forM_eq_foldlM]
  exact emits_foldlM (fun _ => hf) ()

/-! ### Programs that succeed on certain answers -/

/-- Through answers allowed by `A`, the program ends with a result in `Q`. -/
def Succeeds (A : (f : F) → R f → Prop) (Q : α → Prop) (x : Action F R ε α) : Prop :=
  Prog.Guarded A (fun _ => True) (fun r => ∃ a, r = .ok a ∧ Q a) x.run

/-- A run succeeds when the answers that it gets are allowed by `A`. -/
theorem Succeeds.exec_ok_of_issues {Q : α → Prop} {x : Action F R ε α} (hx : Succeeds A Q x)
    {h : Handler F R σ} {s : σ} (hA : Issues h A x s) :
    ∃ a s', exec h x s = (.ok a, s') ∧ Q a := by
  unfold Succeeds at hx
  unfold Issues execLog at hA
  unfold exec
  generalize x.run = p at hx hA ⊢
  induction p generalizing s with
  | pure r =>
    obtain ⟨a, rfl, ha⟩ := hx
    exact ⟨a, s, rfl, ha⟩
  | op f k ih =>
    have hf : A f (h f s).1 := hA ⟨f, (h f s).1⟩ List.mem_cons_self
    exact ih _ (hx.2 _ hf) fun e he => hA e (List.mem_cons_of_mem _ he)

theorem Succeeds.exec_ok {Q : α → Prop} {x : Action F R ε α} (hx : Succeeds A Q x)
    {h : Handler F R σ} (hA : ∀ f s, A f (h f s).1) (s : σ) :
    ∃ a s', exec h x s = (.ok a, s') ∧ Q a := by
  refine hx.exec_ok_of_issues fun e he => ?_
  obtain ⟨s', hs'⟩ := Prog.answer_of_mem_log he
  rw [hs']
  exact hA e.1 s'

theorem succeeds_pure {Q : α → Prop} {a : α} (h : Q a) :
    Succeeds A Q (pure a : Action F R ε α) := ⟨a, rfl, h⟩

theorem succeeds_ofResult {Q : α → Prop} {r : Except ε α} (h : ∃ a, r = .ok a ∧ Q a) :
    Succeeds A Q (ofResult r : Action F R ε α) := h

theorem succeeds_call {Q : α → Prop} {f : F} {k : R f → Except ε α}
    (h : ∀ r, A f r → ∃ a, k r = .ok a ∧ Q a) : Succeeds A Q (call f k : Action F R ε α) :=
  ⟨trivial, h⟩

theorem succeeds_bind {Q : α → Prop} {Q' : β → Prop} {x : Action F R ε α}
    {g : α → Action F R ε β} (hx : Succeeds A Q x) (hg : ∀ a, Q a → Succeeds A Q' (g a)) :
    Succeeds A Q' (x >>= g) := by
  show Prog.Guarded A _ _ (x.run >>= ExceptT.bindCont g)
  refine Prog.guarded_bind hx fun r hr => ?_
  obtain ⟨a, rfl, ha⟩ := hr
  exact hg a ha

theorem succeeds_mapError {Q : α → Prop} {e : ε → ε'} {x : Action F R ε α}
    (hx : Succeeds A Q x) : Succeeds A Q (mapError e x) := by
  refine Prog.guarded_bind hx fun r hr => ?_
  obtain ⟨a, rfl, ha⟩ := hr
  exact ⟨a, rfl, ha⟩

/-- What is run for its effect only cannot fail. -/
theorem succeeds_ignore (x : Action F R ε α) :
    Succeeds A (fun _ => True) (ignore x : Action F R ε' Unit) := by
  refine Prog.guarded_bind (Q := fun _ => True) ?_ fun r _ => ⟨(), rfl, trivial⟩
  generalize x.run = p
  induction p with
  | pure r => trivial
  | op f k ih => exact ⟨trivial, fun r _ => ih r⟩

theorem succeeds_attempt {Q : α → Prop} {x : Action F R ε α} (hx : Succeeds A Q x) :
    Succeeds A (fun r => ∃ a, r = .ok a ∧ Q a) (attempt x : Action F R ε' (Except ε α)) :=
  Prog.guarded_bind hx fun r hr => ⟨r, rfl, hr⟩

theorem succeeds_forM {f : α → Action F R ε PUnit} {xs : List α}
    (hf : ∀ x ∈ xs, Succeeds A (fun _ => True) (f x)) :
    Succeeds A (fun _ => True) (forM xs f) := by
  induction xs with
  | nil => exact succeeds_pure trivial
  | cons x xs ih =>
    rw [List.forM_cons]
    exact succeeds_bind (hf x List.mem_cons_self) fun _ _ =>
      ih fun y hy => hf y (List.mem_cons_of_mem x hy)

/-! ### Programs that get to an operation -/

/-- On every branch that answers allowed by `A` lead to there is an operation in `P`. -/
def Prog.Reaches (A : (f : F) → R f → Prop) (P : F → Prop) : Prog F R α → Prop
  | .pure _ => False
  | .op f k => P f ∨ ∀ r, A f r → Reaches A P (k r)

def Reaches (A : (f : F) → R f → Prop) (P : F → Prop) (x : Action F R ε α) : Prop :=
  Prog.Reaches A P x.run

theorem Reaches.exists_mem {x : Action F R ε α} (hx : Reaches A P x) {h : Handler F R σ}
    (hA : ∀ f s, A f (h f s).1) (s : σ) : ∃ e ∈ execLog h x s, P e.1 := by
  unfold Reaches at hx
  unfold execLog
  generalize x.run = p at hx ⊢
  induction p generalizing s with
  | pure r => exact hx.elim
  | op f k ih =>
    rcases hx with hf | hk
    · exact ⟨_, List.mem_cons_self, hf⟩
    · obtain ⟨e, he, hP⟩ := ih _ (h f s).2 (hk _ (hA f s))
      exact ⟨e, List.mem_cons_of_mem _ he, hP⟩

theorem reaches_call {f : F} {k : R f → Except ε α} (hf : P f) :
    Reaches A P (call f k : Action F R ε α) := .inl hf

theorem reaches_bind {Q : α → Prop} {x : Action F R ε α} {g : α → Action F R ε β}
    (hx : Succeeds A Q x) (hg : ∀ a, Q a → Reaches A P (g a)) : Reaches A P (x >>= g) := by
  show Prog.Reaches A P (x.run.bind (ExceptT.bindCont g))
  unfold Succeeds at hx
  generalize x.run = p at hx ⊢
  induction p with
  | pure r =>
    obtain ⟨a, rfl, ha⟩ := hx
    exact hg a ha
  | op f k ih => exact .inr fun r hr => ih r (hx.2 r hr)

theorem reaches_bind_left {x : Action F R ε α} {g : α → Action F R ε β} (hx : Reaches A P x) :
    Reaches A P (x >>= g) := by
  show Prog.Reaches A P (x.run.bind (ExceptT.bindCont g))
  unfold Reaches at hx
  generalize x.run = p at hx ⊢
  induction p with
  | pure r => exact hx.elim
  | op f k ih => exact hx.imp_right fun hk r hr => ih r (hk r hr)

theorem reaches_attempt_bind {x : Action F R ε α} {g : Except ε α → Action F R ε' β}
    (hx : Reaches A P x) : Reaches A P (attempt x >>= g) := by
  show Prog.Reaches A P ((x.run.bind fun r => .pure (.ok r)).bind (ExceptT.bindCont g))
  unfold Reaches at hx
  generalize x.run = p at hx ⊢
  induction p with
  | pure r => exact hx.elim
  | op f k ih => exact hx.imp_right fun hk r hr => ih r (hk r hr)

/-! ### Programs that fail on certain answers -/

/-- On every branch the program stops with an error at the first answer in `B`. -/
def Prog.StopsOn (B : (f : F) → R f → Prop) : Prog F R (Except ε α) → Prop
  | .pure _ => True
  | .op f k => ∀ r, (B f r → ∃ e, k r = .pure (.error e)) ∧ (¬ B f r → (k r).StopsOn B)

def StopsOn (B : (f : F) → R f → Prop) (x : Action F R ε α) : Prop := Prog.StopsOn B x.run

section Stopping

variable {B : (f : F) → R f → Prop}

theorem StopsOn.exec_error {x : Action F R ε α} (hx : StopsOn B x) {h : Handler F R σ} {s : σ}
    {e : (f : F) × R f} (he : e ∈ execLog h x s) (hB : B e.1 e.2) :
    ∃ message s', exec h x s = (.error message, s') := by
  unfold StopsOn at hx
  unfold exec
  unfold execLog at he
  generalize x.run = p at hx he ⊢
  induction p generalizing s with
  | pure r => cases he
  | op f k ih =>
    obtain ⟨hbad, hgood⟩ := hx (h f s).1
    by_cases hBf : B f (h f s).1
    · obtain ⟨message, hk⟩ := hbad hBf
      refine ⟨message, (h f s).2, ?_⟩
      show Prog.run h (k (h f s).1) (h f s).2 = _
      rw [hk]
      rfl
    · rcases List.mem_cons.mp he with rfl | he
      · exact absurd hB hBf
      · exact ih _ (hgood hBf) he

/-- A program that issues no operation with an answer in `B`. -/
theorem stopsOn_of_emits {P : F → Prop} {Q : α → Prop} {x : Action F R ε α}
    (hx : Emits (fun _ _ => True) P Q x) (hP : ∀ f r, P f → ¬ B f r) : StopsOn B x := by
  unfold StopsOn
  unfold Emits at hx
  generalize x.run = p at hx ⊢
  induction p with
  | pure r => trivial
  | op f k ih =>
    exact fun r => ⟨fun hB => absurd hB (hP f r hx.1), fun _ => ih r (hx.2 r trivial)⟩

theorem stopsOn_bind {x : Action F R ε α} {g : α → Action F R ε β} (hx : StopsOn B x)
    (hg : ∀ a, StopsOn B (g a)) : StopsOn B (x >>= g) := by
  show Prog.StopsOn B (Prog.bind x.run (ExceptT.bindCont g))
  unfold StopsOn at hx
  generalize x.run = p at hx ⊢
  induction p with
  | pure r =>
    cases r with
    | ok a => exact hg a
    | error e => trivial
  | op f k ih =>
    intro r
    obtain ⟨hbad, hgood⟩ := hx r
    refine ⟨fun hB => ?_, fun hB => ih r (hgood hB)⟩
    obtain ⟨e, he⟩ := hbad hB
    refine ⟨e, ?_⟩
    show (k r).bind (ExceptT.bindCont g) = _
    rw [he]
    rfl

theorem stopsOn_forM {f : α → Action F R ε PUnit} {xs : List α} (hf : ∀ x ∈ xs, StopsOn B (f x)) :
    StopsOn B (forM xs f) := by
  induction xs with
  | nil => trivial
  | cons x xs ih =>
    rw [List.forM_cons]
    exact stopsOn_bind (hf x List.mem_cons_self) fun _ =>
      ih fun y hy => hf y (List.mem_cons_of_mem x hy)

end Stopping

/-- On every branch the program stops with an error at the first answer in `B`, and with a result
when there is none. -/
def Prog.FailsOn (B : (f : F) → R f → Prop) : Prog F R (Except ε α) → Prop
  | .pure r => ∃ a, r = .ok a
  | .op f k => ∀ r, (B f r → ∃ e, k r = .pure (.error e)) ∧ (¬ B f r → (k r).FailsOn B)

def FailsOn (B : (f : F) → R f → Prop) (x : Action F R ε α) : Prop := Prog.FailsOn B x.run

variable {B : (f : F) → R f → Prop}

end Exec

end Effects
