import Passhrs.Lib.Program

/-!
# Attempts in order

Operations that are answered by yes or no, tried one after the other until the first yes.

* **`firstAccepted_append`**: trying one list and then another is trying the two in a row.
* **`requireAccepted_inOrder`**: what is tried is the list, in its order and up to the first yes.
* **`requireAccepted_answering`**: with answers that depend on the operation alone, the program
  succeeds when one of them is yes.
-/

namespace Effects

universe u v w

/-! ## The monad laws -/

namespace Prog

variable {F : Type u} {R : F → Type v} {α β γ : Type w}

theorem bind_pure_eq (p : Prog F R α) : p.bind .pure = p := by
  induction p with
  | pure a => rfl
  | op f k ih => exact congrArg (Prog.op f) (funext ih)

theorem bind_bind_eq (p : Prog F R α) (g : α → Prog F R β) (g' : β → Prog F R γ) :
    (p.bind g).bind g' = p.bind fun a => (g a).bind g' := by
  induction p with
  | pure a => rfl
  | op f k ih => exact congrArg (Prog.op f) (funext ih)

instance : LawfulMonad (Prog F R) :=
  LawfulMonad.mk' _ (fun p => bind_pure_eq p) (fun _ _ => rfl) bind_bind_eq

end Prog

/-! ## Trying in order -/

variable {F ε σ : Type}

/-- Try the operations in order until one is accepted. -/
def firstAccepted : List F → Action F (fun _ => Except ε Bool) ε Bool
  | [] => pure false
  | f :: fs => do
    let accepted ← call f id
    if accepted then pure true else firstAccepted fs

/-- Fail when none is accepted. -/
def requireAccepted (message : ε) (fs : List F) : Action F (fun _ => Except ε Bool) ε Unit := do
  let accepted ← firstAccepted fs
  if accepted then pure () else throw message

theorem firstAccepted_append (fs gs : List F) :
    (firstAccepted (fs ++ gs) : Action F (fun _ => Except ε Bool) ε Bool) =
      firstAccepted fs >>= fun accepted =>
        if accepted then pure true else firstAccepted gs := by
  induction fs with
  | nil => rfl
  | cons f fs ih =>
    rw [List.cons_append, firstAccepted, firstAccepted, ih, bind_assoc]
    refine bind_congr fun accepted => ?_
    cases accepted with
    | true => rfl
    | false => rfl

theorem firstAccepted_singleton (f : F) :
    (firstAccepted [f] : Action F (fun _ => Except ε Bool) ε Bool) = call f id := by
  have hid : ∀ accepted : Bool, (if accepted then pure true else firstAccepted [] :
      Action F (fun _ => Except ε Bool) ε Bool) = pure accepted := by
    intro accepted
    cases accepted with
    | true => rfl
    | false => rfl
  rw [firstAccepted]
  simp only [hid]
  exact bind_pure _

/-- Answer each operation the same way, whenever it comes. -/
def answering (accepts : F → Bool) : Handler F (fun _ => Except ε Bool) σ :=
  fun f s => (.ok (accepts f), s)

theorem exec_firstAccepted (accepts : F → Bool) (chain : List F) (s : σ) :
    exec (answering accepts) (firstAccepted chain : Action F (fun _ => Except ε Bool) ε Bool) s =
      (.ok (chain.any accepts), s) := by
  induction chain with
  | nil => rfl
  | cons f fs ih =>
    have hcall : exec (answering accepts) (call f id : Action F (fun _ => Except ε Bool) ε Bool) s =
        (.ok (accepts f), s) := rfl
    rw [firstAccepted, exec_bind_ok hcall, List.any_cons]
    cases accepts f with
    | true => rfl
    | false => exact ih

theorem requireAccepted_answering (accepts : F → Bool) (message : ε) (chain : List F) (s : σ) :
    (exec (answering accepts) (requireAccepted message chain) s).1 = .ok () ↔
      ∃ f ∈ chain, accepts f = true := by
  rw [requireAccepted, exec_bind_ok (exec_firstAccepted accepts chain s), ← List.any_eq_true]
  cases chain.any accepts with
  | true => exact iff_of_true rfl rfl
  | false => exact iff_of_false (fun hrun => nomatch hrun) Bool.false_ne_true

/-- `log` is a run of attempts on `chain`, and `accepted` says whether one of them was accepted. -/
structure TriesInOrder (chain : List F) (log : List ((_ : F) × Except ε Bool)) (accepted : Prop) :
    Prop where
  order : log.map Sigma.fst <+: chain
  stops : ∀ before e after, log = before ++ e :: after → e.2 = .ok true → after = []
  complete : ¬ accepted → log.map Sigma.fst = chain
  accepted_iff : accepted ↔ ∃ e ∈ log, e.2 = .ok true

section Logs

variable {chain : List F} {log : List ((_ : F) × Except ε Bool)} {accepted : Prop}

theorem triesInOrder_nil :
    TriesInOrder [] ([] : List ((_ : F) × Except ε Bool)) (false = true) where
  order := List.prefix_refl _
  stops := fun _ _ _ hsplit => by simp at hsplit
  complete := fun _ => rfl
  accepted_iff := by simp

/-- The first attempt is accepted. -/
theorem triesInOrder_accepted (f : F) :
    TriesInOrder (f :: chain) [(⟨f, .ok true⟩ : (_ : F) × Except ε Bool)] (true = true) where
  order := ⟨chain, rfl⟩
  stops := fun before e after hsplit _ => by
    cases before with
    | nil => exact (List.cons.inj hsplit).2.symm
    | cons _ before => simp at hsplit
  complete := fun hno => absurd rfl hno
  accepted_iff := by simp

/-- The first attempt is refused. -/
theorem TriesInOrder.refused (hlog : TriesInOrder chain log accepted) (f : F) :
    TriesInOrder (f :: chain) (⟨f, .ok false⟩ :: log) accepted where
  order := List.cons_prefix_cons.mpr ⟨rfl, hlog.order⟩
  stops := fun before e after hsplit he => by
    cases before with
    | nil =>
      obtain ⟨rfl, -⟩ := List.cons.inj hsplit
      cases he
    | cons _ before => exact hlog.stops before e after (List.cons.inj hsplit).2 he
  complete := fun hno => congrArg (f :: ·) (hlog.complete hno)
  accepted_iff := by
    rw [hlog.accepted_iff]
    simp

end Logs

theorem firstAccepted_inOrder {h : Handler F (fun _ => Except ε Bool) σ} {chain : List F} {s : σ}
    (hok : ∀ e ∈ execLog h (firstAccepted chain) s, ∃ b, e.2 = .ok b) :
    ∃ accepted s', exec h (firstAccepted chain) s = (.ok accepted, s') ∧
      TriesInOrder chain (execLog h (firstAccepted chain) s) (accepted = true) := by
  induction chain generalizing s with
  | nil => exact ⟨false, s, rfl, triesInOrder_nil⟩
  | cons f fs ih =>
    have hlog : ∀ b, (h f s).1 = .ok b → execLog h (firstAccepted (f :: fs)) s =
        ⟨f, .ok b⟩ :: execLog h (if b then pure true else firstAccepted fs) (h f s).2 := by
      intro b hb
      have hcall : exec h (call f id) s = (.ok b, (h f s).2) := by rw [exec_call, hb]; rfl
      rw [firstAccepted, execLog_bind_ok hcall, execLog_call, hb]
      rfl
    have hrun : ∀ b, (h f s).1 = .ok b → exec h (firstAccepted (f :: fs)) s =
        exec h (if b then pure true else firstAccepted fs) (h f s).2 := by
      intro b hb
      have hcall : exec h (call f id) s = (.ok b, (h f s).2) := by rw [exec_call, hb]; rfl
      rw [firstAccepted, exec_bind_ok hcall]
    obtain ⟨b, hb⟩ : ∃ b, (h f s).1 = .ok b := by
      refine hok ⟨f, (h f s).1⟩ ?_
      rw [firstAccepted]
      exact mem_execLog_bind_left (by simp)
    rw [hlog b hb, hrun b hb]
    cases b with
    -- an accepted attempt is the last one
    | true => exact ⟨true, (h f s).2, rfl, triesInOrder_accepted f⟩
    | false =>
      rw [hlog false hb] at hok
      obtain ⟨accepted, s', hexec, htries⟩ := ih fun e he => hok e (List.mem_cons_of_mem _ he)
      exact ⟨accepted, s', hexec, htries.refused f⟩

/-- **The operations are tried in order up to the first that is accepted**, all of them when none
is. -/
theorem requireAccepted_inOrder {h : Handler F (fun _ => Except ε Bool) σ} {message : ε}
    {chain : List F} {s : σ}
    (hok : ∀ e ∈ execLog h (requireAccepted message chain) s, ∃ b, e.2 = .ok b) :
    TriesInOrder chain (execLog h (requireAccepted message chain) s)
      ((exec h (requireAccepted message chain) s).1 = .ok ()) := by
  rw [requireAccepted] at hok ⊢
  obtain ⟨accepted, s', hexec, htries⟩ := firstAccepted_inOrder fun e he =>
    hok e (mem_execLog_bind_left he)
  have hend : execLog h (if accepted then pure () else throw message :
      Action F (fun _ => Except ε Bool) ε Unit) s' = [] := by
    cases accepted with
    | true => rfl
    | false => rfl
  have hrun : (exec h (if accepted then pure () else throw message :
      Action F (fun _ => Except ε Bool) ε Unit) s').1 = .ok () ↔ accepted = true := by
    cases accepted with
    | true => exact iff_of_true rfl rfl
    | false => exact iff_of_false (fun hrun => nomatch hrun) Bool.false_ne_true
  rw [execLog_bind_ok hexec, exec_bind_ok hexec, hend, List.append_nil, hrun]
  exact htries

end Effects
