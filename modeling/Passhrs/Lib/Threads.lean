import Mathlib.Logic.Function.Basic
import Passhrs.Lib.Machine
import Passhrs.Lib.Program

/-!
# Programs side by side

Several programs run on one state, and a scheduler picks whose operation comes next.

* **`Threads.step`**: one operation of one thread; an event machine over the threads' names.
* **`Follows`**: the program is a party to a protocol. Wherever it stands, its next operation is a
  move of the protocol *in whatever state it finds*, so what the other threads do in between
  does not matter. There is one rule for each way programs are put together.
* **`Threads.exists_move`**: a step of the threads is a move of one party, so an invariant of the
  protocol is an invariant of the threads.
-/

namespace Effects

variable {F : Type} {R : F → Type} {σ S ι ε ε' α β : Type}

/-! ## Protocols -/

/-- From stage `st` on the program makes only moves of `A`, where `A f st s st' s'` lets a party
take the state from `s` to `s'` by operation `f` and go from stage `st` to `st'`. It ends in a
stage and with a result that `E` allows. -/
def Prog.Follows (h : Handler F R σ) (A : F → S → σ → S → σ → Prop) (E : S → α → Prop) :
    Prog F R α → S → Prop
  | .pure a, st => E st a
  | .op f k, st => ∀ s, ∃ st', A f st s st' (h f s).2 ∧ Prog.Follows h A E (k (h f s).1) st'

section Rules

variable {h : Handler F R σ} {A : F → S → σ → S → σ → Prop} {st : S}

theorem Prog.Follows.mono {E E' : S → α → Prop} {p : Prog F R α} (hp : p.Follows h A E st)
    (hE : ∀ st a, E st a → E' st a) : p.Follows h A E' st := by
  induction p generalizing st with
  | pure a => exact hE st a hp
  | op f k ih =>
    intro s
    obtain ⟨st', hmove, hrest⟩ := hp s
    exact ⟨st', hmove, ih _ hrest⟩

theorem Prog.follows_bind {E : S → α → Prop} {E' : S → β → Prop} {p : Prog F R α}
    {g : α → Prog F R β} (hp : p.Follows h A E st)
    (hg : ∀ st' a, E st' a → (g a).Follows h A E' st') : (p >>= g).Follows h A E' st := by
  show (p.bind g).Follows h A E' st
  induction p generalizing st with
  | pure a => exact hg st a hp
  | op f k ih =>
    intro s
    obtain ⟨st', hmove, hrest⟩ := hp s
    exact ⟨st', hmove, ih _ hrest⟩

/-- A fallible program that is a party to a protocol. -/
def Follows (h : Handler F R σ) (A : F → S → σ → S → σ → Prop) (E : S → Except ε α → Prop)
    (x : Action F R ε α) (st : S) : Prop := x.run.Follows h A E st

variable {E : S → Except ε α → Prop}

theorem follows_pure {a : α} (ha : E st (.ok a)) :
    Follows h A E (pure a : Action F R ε α) st := ha

theorem follows_throw {e : ε} (he : E st (.error e)) :
    Follows h A E (throw e : Action F R ε α) st := he

theorem follows_call {f : F} {k : R f → Except ε α}
    (hf : ∀ s, ∃ st', A f st s st' (h f s).2 ∧ E st' (k (h f s).1)) :
    Follows h A E (call f k) st := hf

theorem follows_bind {E' : S → Except ε β → Prop} {x : Action F R ε α} {g : α → Action F R ε β}
    (hx : Follows h A E x st) (hg : ∀ st' a, E st' (.ok a) → Follows h A E' (g a) st')
    (herror : ∀ st' e, E st' (.error e) → E' st' (.error e)) :
    Follows h A E' (x >>= g) st := by
  refine Prog.follows_bind hx fun st' r hr => ?_
  cases r with
  | ok a => exact hg st' a hr
  | error e => exact herror st' e hr

theorem follows_mapError {E' : S → Except ε' α → Prop} {e : ε → ε'} {x : Action F R ε α}
    (hx : Follows h A (fun st r => E' st (r.mapError e)) x st) : Follows h A E' (mapError e x) st :=
  Prog.follows_bind hx fun _ _ hr => hr

/-- An ignored part leaves one stage, whatever comes of it. -/
theorem follows_ignore_bind {E' : S → Except ε' β → Prop} {x : Action F R ε α}
    {g : Unit → Action F R ε' β} {st₁ : S} (hx : Follows h A (fun st _ => st = st₁) x st)
    (hg : Follows h A E' (g ()) st₁) : Follows h A E' (ignore x >>= g) st := by
  have hignore : Follows h A (fun st (r : Except ε' Unit) => r = .ok () ∧ st = st₁) (ignore x) st :=
    Prog.follows_bind hx fun _ _ hr => ⟨rfl, hr⟩
  refine follows_bind hignore ?_ ?_
  · rintro _ _ ⟨-, rfl⟩
    exact hg
  · rintro _ _ ⟨⟨⟩, -⟩

theorem follows_attempt {E' : S → Except ε' (Except ε α) → Prop} {x : Action F R ε α}
    (hx : Follows h A (fun st r => E' st (.ok r)) x st) :
    Follows h A E' (attempt x : Action F R ε' (Except ε α)) st :=
  Prog.follows_bind hx fun _ _ hr => hr

end Rules

/-! ## Threads -/

/-- The operation that a program issues first. -/
def Prog.next : Prog F R α → Option F
  | .pure _ => none
  | .op f _ => some f

/-- What each thread has left to do, and the state they share. -/
structure Threads (ι F : Type) (R : F → Type) (σ α : Type) where
  state : σ
  rest : ι → Prog F R α

namespace Threads

variable [DecidableEq ι]

/-- Thread `i` issues its next operation. A finished thread has none. -/
def step (h : ι → Handler F R σ) (s : Threads ι F R σ α) (i : ι) : Option (Threads ι F R σ α) :=
  match s.rest i with
  | .pure _ => none
  | .op f k => some ⟨(h i f s.state).2, Function.update s.rest i (k (h i f s.state).1)⟩

/-- Every thread is a party to its protocol, thread `i` at stage `st i`. -/
def Follow (h : ι → Handler F R σ) (A : ι → F → S → σ → S → σ → Prop)
    (E : ι → S → α → Prop) (s : Threads ι F R σ α) (st : ι → S) : Prop :=
  ∀ i, (s.rest i).Follows (h i) (A i) (E i) (st i)

theorem exists_move {h : ι → Handler F R σ} {A : ι → F → S → σ → S → σ → Prop}
    {E : ι → S → α → Prop} {s t : Threads ι F R σ α} {st : ι → S} {i : ι}
    (hfollow : s.Follow h A E st) (hstep : step h s i = some t) :
    ∃ f st', (s.rest i).next = some f ∧ A i f (st i) s.state st' t.state ∧
      t.Follow h A E (Function.update st i st') := by
  unfold step at hstep
  have hi := hfollow i
  split at hstep
  · cases hstep
  · next f k hrest =>
    cases hstep
    rw [hrest] at hi
    obtain ⟨st', hmove, hk⟩ := hi s.state
    refine ⟨f, st', by rw [hrest]; rfl, hmove, fun j => ?_⟩
    by_cases hj : j = i
    · subst hj
      simpa using hk
    · simpa [hj] using hfollow j

end Threads

end Effects
