import Mathlib.Data.List.Nodup
import Mathlib.Tactic.Common

/-!
# Documents that take in other documents

A document is a list of items: its own text, other documents that stand there in its place, and
errors. Documents are told apart by a key.

* **`Expands`**: what a document stands for, with the keys of all documents taken in on the way. It
  knows no visited set, and `Expands.unique` says that it leaves no choice.
* **`takeItems`**: the expansion that remembers the keys it has met and fails at one it meets again
  or below a fixed depth. `takeItems_eq_ok_iff` says which documents it expands, and
  `takeItems_visited` what its memory holds however it ends.
* **`Occurs`**: the places of a document in the tree of all that is taken in. `nodup_iff_occurs` and
  `pairwise_iff_ordered` read the two sides of an expansion off that tree.
-/

namespace Splice

variable {T N K ε : Type}

/-- An item of a document. -/
inductive Item (T N ε : Type) where
  | text (t : T)
  | file (n : N)
  | fail (e : ε)
deriving DecidableEq

/-- The same item with other texts and errors. -/
def Item.map {T' ε' : Type} (f : T → T') (g : ε → ε') : Item T N ε → Item T' N ε'
  | .text t => .text (f t)
  | .file n => .file n
  | .fail e => .fail (g e)

/-- What there is to take in. -/
structure Docs (T N K ε : Type) where
  key : N → K
  doc : N → Except ε (List (Item T N ε))

/-! ## What a document stands for -/

/-- The items expand to the texts `ts`, and the documents taken in have the keys `ks`, in order.
No document is more than `d` levels down. -/
inductive Expands (D : Docs T N K ε) : Nat → List (Item T N ε) → List T → List K → Prop where
  | nil {d} : Expands D d [] [] []
  | text {d t rest ts ks} (hrest : Expands D d rest ts ks) :
      Expands D d (.text t :: rest) (t :: ts) ks
  | file {d n items rest ts ks ts' ks'} (hdoc : D.doc n = .ok items)
      (hitems : Expands D d items ts ks) (hrest : Expands D (d + 1) rest ts' ks') :
      Expands D (d + 1) (.file n :: rest) (ts ++ ts') (D.key n :: (ks ++ ks'))

namespace Expands

variable {D : Docs T N K ε} {d d' : Nat} {items items' : List (Item T N ε)} {ts ts' : List T}
  {ks ks' : List K}

theorem unique (h : Expands D d items ts ks) (h' : Expands D d' items ts' ks') :
    ts = ts' ∧ ks = ks' := by
  induction h generalizing d' ts' ks' with
  | nil =>
    cases h'
    exact ⟨rfl, rfl⟩
  | text _ ih =>
    obtain _ | hrest' := h'
    obtain ⟨rfl, rfl⟩ := ih hrest'
    exact ⟨rfl, rfl⟩
  | file hdoc _ _ ih ih' =>
    obtain _ | _ | ⟨hdoc', hitems', hrest'⟩ := h'
    rw [hdoc] at hdoc'
    obtain rfl := Except.ok.inj hdoc'
    obtain ⟨rfl, rfl⟩ := ih hitems'
    obtain ⟨rfl, rfl⟩ := ih' hrest'
    exact ⟨rfl, rfl⟩

theorem fail_notMem (h : Expands D d items ts ks) (e : ε) : .fail e ∉ items := by
  induction h with
  | nil => exact List.not_mem_nil
  | text _ ih => exact fun hmem => ih ((List.mem_cons.mp hmem).resolve_left nofun)
  | file _ _ _ _ ih => exact fun hmem => ih ((List.mem_cons.mp hmem).resolve_left nofun)

/-- The expansion with other texts, in documents that agree with the first ones where these have no
error of their own. -/
theorem map {T' ε' : Type} {D' : Docs T' N K ε'} {f : T → T'} {g : ε → ε'}
    (hkey : ∀ n, D'.key n = D.key n)
    (hdoc : ∀ n items, D.doc n = .ok items → (∀ e, .fail e ∉ items) →
      D'.doc n = .ok (items.map (Item.map f g)))
    (h : Expands D d items ts ks) : Expands D' d (items.map (Item.map f g)) (ts.map f) ks := by
  induction h with
  | nil => exact .nil
  | text _ ih => exact .text ih
  | @file _ n items _ _ _ _ _ hdocn hitems _ ih ih' =>
    rw [List.map_append, ← hkey]
    exact .file (hdoc n items hdocn hitems.fail_notMem) ih ih'

end Expands

section Cons

variable {D : Docs T N K ε} {d : Nat} {rest : List (Item T N ε)} {ts : List T} {ks : List K}

theorem expands_nil_iff : Expands D d [] ts ks ↔ ts = [] ∧ ks = [] := by
  constructor
  · rintro ⟨⟩
    exact ⟨rfl, rfl⟩
  · rintro ⟨rfl, rfl⟩
    exact .nil

theorem expands_text_iff {t : T} :
    Expands D d (.text t :: rest) ts ks ↔ ∃ ts', ts = t :: ts' ∧ Expands D d rest ts' ks := by
  constructor
  · intro h
    obtain _ | hrest := h
    exact ⟨_, rfl, hrest⟩
  · rintro ⟨ts', rfl, hrest⟩
    exact .text hrest

theorem expands_file_iff {n : N} : Expands D d [.file n] ts ks ↔
    ∃ d' items ks', d = d' + 1 ∧ D.doc n = .ok items ∧ ks = D.key n :: ks' ∧
      Expands D d' items ts ks' := by
  constructor
  · intro h
    obtain _ | _ | ⟨hdoc, hitems, hrest⟩ := h
    obtain ⟨rfl, rfl⟩ := expands_nil_iff.mp hrest
    rw [List.append_nil, List.append_nil]
    exact ⟨_, _, _, rfl, hdoc, rfl, hitems⟩
  · rintro ⟨d', items, ks', rfl, hdoc, rfl, hitems⟩
    have := Expands.file hdoc hitems .nil
    rwa [List.append_nil, List.append_nil] at this

theorem expands_cons_iff {n : N} : Expands D d (.file n :: rest) ts ks ↔
    ∃ ts₁ ks₁ ts₂ ks₂, ts = ts₁ ++ ts₂ ∧ ks = ks₁ ++ ks₂ ∧ Expands D d [.file n] ts₁ ks₁ ∧
      Expands D d rest ts₂ ks₂ := by
  constructor
  · intro h
    obtain _ | _ | ⟨hdoc, hitems, hrest⟩ := h
    exact ⟨_, _, _, _, rfl, rfl, expands_file_iff.mpr ⟨_, _, _, rfl, hdoc, rfl, hitems⟩, hrest⟩
  · rintro ⟨ts₁, ks₁, ts₂, ks₂, rfl, rfl, hfile, hrest⟩
    obtain ⟨d', items, ks', rfl, hdoc, rfl, hitems⟩ := expands_file_iff.mp hfile
    exact .file hdoc hitems hrest

end Cons

/-! ## Expanding with a memory -/

section Take

/-- Expand items, where `take` takes in a document. The second component is what has been met, also
when there is an error. -/
def takeItems (take : N → List K → Except ε (List T) × List K) :
    List (Item T N ε) → List K → Except ε (List T) × List K
  | [], seen => (.ok [], seen)
  | .text t :: rest, seen =>
    match takeItems take rest seen with
    | (.ok ts, seen) => (.ok (t :: ts), seen)
    | (.error e, seen) => (.error e, seen)
  | .file n :: rest, seen =>
    match take n seen with
    | (.error e, seen) => (.error e, seen)
    | (.ok ts, seen) =>
      match takeItems take rest seen with
      | (.ok ts', seen) => (.ok (ts ++ ts'), seen)
      | (.error e, seen) => (.error e, seen)
  | .fail e :: _, seen => (.error e, seen)

/-- Take in a document that has not been met, with at most `left` levels below it. -/
def take [DecidableEq K] (D : Docs T N K ε) (again : K → ε) (tooDeep : ε) :
    Nat → N → List K → Except ε (List T) × List K
  | left, n, seen =>
    if D.key n ∈ seen then (.error (again (D.key n)), seen)
    else
      match D.doc n with
      | .error e => (.error e, seen ++ [D.key n])
      | .ok items =>
        match left with
        | 0 => (.error tooDeep, seen ++ [D.key n])
        | left + 1 => takeItems (take D again tooDeep left) items (seen ++ [D.key n])

variable {D : Docs T N K ε} {again : K → ε} {tooDeep : ε} {d : Nat} {items : List (Item T N ε)}
  {ts : List T} {seen seen' : List K} {n : N}

theorem takeItems_append {take : N → List K → Except ε (List T) × List K}
    (items items' : List (Item T N ε)) (seen : List K) :
    takeItems take (items ++ items') seen =
      match takeItems take items seen with
      | (.error e, seen) => (.error e, seen)
      | (.ok ts, seen) =>
        match takeItems take items' seen with
        | (.ok ts', seen) => (.ok (ts ++ ts'), seen)
        | (.error e, seen) => (.error e, seen) := by
  induction items generalizing seen with
  | nil =>
    rw [List.nil_append, takeItems]
    dsimp only
    rcases takeItems take items' seen with ⟨_ | _, _⟩ <;> rfl
  | cons item rest ih =>
    cases item with
    | text t =>
      rw [List.cons_append, takeItems, takeItems, ih]
      rcases takeItems take rest seen with ⟨_ | ts, seen⟩
      · rfl
      · dsimp only
        rcases takeItems take items' seen with ⟨_ | _, _⟩ <;> rfl
    | file n =>
      rw [List.cons_append, takeItems, takeItems]
      rcases take n seen with ⟨_ | ts, seen⟩
      · rfl
      · dsimp only
        rw [ih]
        rcases takeItems take rest seen with ⟨_ | ts', seen⟩
        · rfl
        · dsimp only
          rcases takeItems take items' seen with ⟨_ | ts'', _⟩
          · rfl
          · dsimp only
            rw [List.append_assoc]
    | fail e => rfl

theorem takeItems_text_eq_ok_iff {take : N → List K → Except ε (List T) × List K} {t : T} :
    takeItems take (.text t :: items) seen = (.ok ts, seen') ↔
      ∃ ts', ts = t :: ts' ∧ takeItems take items seen = (.ok ts', seen') := by
  rw [takeItems]
  rcases takeItems take items seen with ⟨e | ts', seen''⟩
  · simp
  · simp only [Prod.mk.injEq, Except.ok.injEq]
    constructor
    · rintro ⟨rfl, rfl⟩
      exact ⟨ts', rfl, rfl, rfl⟩
    · rintro ⟨ts'', rfl, rfl, rfl⟩
      exact ⟨rfl, rfl⟩

theorem takeItems_file_eq_ok_iff {take : N → List K → Except ε (List T) × List K} :
    takeItems take (.file n :: items) seen = (.ok ts, seen') ↔
      ∃ ts₁ seen₁ ts₂, take n seen = (.ok ts₁, seen₁) ∧
        takeItems take items seen₁ = (.ok ts₂, seen') ∧ ts = ts₁ ++ ts₂ := by
  rw [takeItems]
  constructor
  · intro h
    split at h
    · cases h
    · next ts₁ seen₁ hfile =>
      split at h
      · next ts₂ seen₂ hrest =>
        obtain ⟨hts, rfl⟩ := Prod.mk.inj h
        exact ⟨ts₁, seen₁, ts₂, hfile, hrest, (Except.ok.inj hts).symm⟩
      · cases h
  · rintro ⟨ts₁, seen₁, ts₂, hfile, hrest, rfl⟩
    rw [hfile]
    dsimp only
    rw [hrest]

/-- New keys, each of them once. -/
def Fresh (seen ks : List K) : Prop := ks.Nodup ∧ ∀ k ∈ ks, k ∉ seen

theorem fresh_append_iff {ks ks' : List K} :
    Fresh seen (ks ++ ks') ↔ Fresh seen ks ∧ Fresh (seen ++ ks) ks' := by
  simp only [Fresh, List.nodup_append', List.mem_append, not_or, List.disjoint_left]
  constructor
  · rintro ⟨⟨hks, hks', hdisjoint⟩, hseen⟩
    exact ⟨⟨hks, fun k hk => hseen k (.inl hk)⟩, hks',
      fun k hk => ⟨hseen k (.inr hk), fun hmem => hdisjoint hmem hk⟩⟩
  · rintro ⟨⟨hks, hseen⟩, hks', hseen'⟩
    exact ⟨⟨hks, hks', fun k hk hk' => (hseen' k hk').2 hk⟩,
      fun k hk => hk.elim (hseen k) fun hk' => (hseen' k hk').1⟩

theorem fresh_cons_iff {k : K} {ks : List K} :
    Fresh seen (k :: ks) ↔ k ∉ seen ∧ Fresh (seen ++ [k]) ks := by
  rw [← List.singleton_append, fresh_append_iff]
  simp [Fresh]

/-- The loop over the items, once it is known what taking in one document does. -/
theorem takeItems_eq_ok_iff_of_take {take : N → List K → Except ε (List T) × List K}
    (htake : ∀ n seen ts seen', take n seen = (.ok ts, seen') ↔
      ∃ ks, Expands D d [.file n] ts ks ∧ seen' = seen ++ ks ∧ Fresh seen ks) :
    takeItems take items seen = (.ok ts, seen') ↔
      ∃ ks, Expands D d items ts ks ∧ seen' = seen ++ ks ∧ Fresh seen ks := by
  induction items generalizing seen ts with
  | nil =>
    rw [takeItems, Prod.mk.injEq, Except.ok.injEq]
    constructor
    · rintro ⟨rfl, rfl⟩
      exact ⟨[], .nil, (List.append_nil seen).symm, List.nodup_nil, by simp⟩
    · rintro ⟨ks, hexpands, rfl, -⟩
      obtain ⟨rfl, rfl⟩ := expands_nil_iff.mp hexpands
      exact ⟨rfl, (List.append_nil seen).symm⟩
  | cons item rest ih =>
    cases item with
    | text t =>
      rw [takeItems_text_eq_ok_iff]
      constructor
      · rintro ⟨ts', rfl, hrest⟩
        obtain ⟨ks, hexpands, rfl, hfresh⟩ := ih.mp hrest
        exact ⟨ks, .text hexpands, rfl, hfresh⟩
      · rintro ⟨ks, hexpands, rfl, hfresh⟩
        obtain ⟨ts', rfl, hrest⟩ := expands_text_iff.mp hexpands
        exact ⟨ts', rfl, ih.mpr ⟨ks, hrest, rfl, hfresh⟩⟩
    | file n =>
      rw [takeItems_file_eq_ok_iff]
      constructor
      -- the file takes keys that are new, and the rest keys that are new after these
      · rintro ⟨ts₁, seen₁, ts₂, hfile, hrest, rfl⟩
        obtain ⟨ks₁, hexpands₁, rfl, hfresh₁⟩ := (htake n _ _ _).mp hfile
        obtain ⟨ks₂, hexpands₂, rfl, hfresh₂⟩ := ih.mp hrest
        exact ⟨ks₁ ++ ks₂, expands_cons_iff.mpr ⟨_, _, _, _, rfl, rfl, hexpands₁, hexpands₂⟩,
          List.append_assoc .., fresh_append_iff.mpr ⟨hfresh₁, hfresh₂⟩⟩
      · rintro ⟨ks, hexpands, rfl, hfresh⟩
        obtain ⟨ts₁, ks₁, ts₂, ks₂, rfl, rfl, hexpands₁, hexpands₂⟩ := expands_cons_iff.mp hexpands
        obtain ⟨hfresh₁, hfresh₂⟩ := fresh_append_iff.mp hfresh
        exact ⟨ts₁, seen ++ ks₁, ts₂, (htake n _ _ _).mpr ⟨ks₁, hexpands₁, rfl, hfresh₁⟩,
          ih.mpr ⟨ks₂, hexpands₂, (List.append_assoc ..).symm, hfresh₂⟩, rfl⟩
    | fail e =>
      rw [takeItems]
      constructor
      · rintro ⟨⟩
      · rintro ⟨ks, hexpands, -⟩
        exact absurd List.mem_cons_self (hexpands.fail_notMem e)

/-- The memory of the loop, once it is known what taking in one document does to it. -/
theorem takeItems_visited_of_take {take : N → List K → Except ε (List T) × List K}
    (htake : ∀ n seen, ∃ ks, (take n seen).2 = seen ++ ks ∧ Fresh seen ks)
    (items : List (Item T N ε)) (seen : List K) :
    ∃ ks, (takeItems take items seen).2 = seen ++ ks ∧ Fresh seen ks := by
  induction items generalizing seen with
  | nil => exact ⟨[], (List.append_nil seen).symm, List.nodup_nil, by simp⟩
  | cons item rest ih =>
    cases item with
    | text t =>
      obtain ⟨ks, hks, hfresh⟩ := ih seen
      refine ⟨ks, ?_, hfresh⟩
      rw [takeItems, ← hks]
      rcases takeItems take rest seen with ⟨_ | _, _⟩ <;> rfl
    | file n =>
      obtain ⟨ks, hks, hfresh⟩ := htake n seen
      rw [takeItems]
      rcases hfile : take n seen with ⟨e | ts, seen₁⟩
      · rw [hfile] at hks
        exact ⟨ks, hks, hfresh⟩
      · rw [hfile] at hks
        obtain rfl : seen₁ = seen ++ ks := hks
        obtain ⟨ks', hks', hfresh'⟩ := ih (seen ++ ks)
        refine ⟨ks ++ ks', ?_, fresh_append_iff.mpr ⟨hfresh, hfresh'⟩⟩
        rw [← List.append_assoc, ← hks']
        dsimp only
        rcases takeItems take rest (seen ++ ks) with ⟨_ | _, _⟩ <;> rfl
    | fail e => exact ⟨[], (List.append_nil seen).symm, List.nodup_nil, by simp⟩

variable [DecidableEq K]

theorem take_eq_ok_iff : take D again tooDeep d n seen = (.ok ts, seen') ↔
    ∃ ks, Expands D d [.file n] ts ks ∧ seen' = seen ++ ks ∧ Fresh seen ks := by
  induction d generalizing n seen ts seen' with
  | zero =>
    refine iff_of_false ?_ ?_
    · rw [take]
      split
      · rintro ⟨⟩
      · split <;> rintro ⟨⟩
    -- no file expands at depth 0
    · rintro ⟨ks, hexpands, -⟩
      obtain ⟨d', items, ks', hd, -⟩ := expands_file_iff.mp hexpands
      cases hd
  | succ d ih =>
    have hitems : ∀ items seen ts seen',
        takeItems (take D again tooDeep d) items seen = (.ok ts, seen') ↔
          ∃ ks, Expands D d items ts ks ∧ seen' = seen ++ ks ∧ Fresh seen ks :=
      fun _ _ _ _ => takeItems_eq_ok_iff_of_take fun _ _ _ _ => ih
    rw [take]
    constructor
    · intro h
      split at h
      · cases h
      -- the key is recorded before the document's own items are taken
      · next hnew =>
        split at h
        · cases h
        · next items hdoc =>
          obtain ⟨ks, hexpands, rfl, hfresh⟩ := (hitems _ _ _ _).mp h
          refine ⟨D.key n :: ks, expands_file_iff.mpr ⟨d, items, ks, rfl, hdoc, rfl, hexpands⟩,
            List.append_assoc .., fresh_cons_iff.mpr ⟨hnew, hfresh⟩⟩
    · rintro ⟨ks, hexpands, rfl, hfresh⟩
      obtain ⟨d', items, ks, hd, hdoc, rfl, hexpands⟩ := expands_file_iff.mp hexpands
      obtain rfl := Nat.succ.inj hd
      obtain ⟨hnew, hfresh⟩ := fresh_cons_iff.mp hfresh
      rw [if_neg hnew, hdoc]
      exact (hitems _ _ _ _).mpr ⟨ks, hexpands, List.append_cons .., hfresh⟩

/-- **What is expanded**: the items whose expansion stays within the depth and meets only new keys,
each of them once. -/
theorem takeItems_eq_ok_iff : takeItems (take D again tooDeep d) items seen = (.ok ts, seen') ↔
    ∃ ks, Expands D d items ts ks ∧ seen' = seen ++ ks ∧ Fresh seen ks :=
  takeItems_eq_ok_iff_of_take fun _ _ _ _ => take_eq_ok_iff

theorem take_visited (d : Nat) (n : N) (seen : List K) :
    ∃ ks, (take D again tooDeep d n seen).2 = seen ++ ks ∧ Fresh seen ks := by
  induction d generalizing n seen with
  | zero =>
    rw [take]
    split_ifs with hmet
    · exact ⟨[], (List.append_nil seen).symm, List.nodup_nil, by simp⟩
    · refine ⟨[D.key n], ?_, fresh_cons_iff.mpr ⟨hmet, List.nodup_nil, by simp⟩⟩
      rcases D.doc n with _ | _ <;> rfl
  | succ d ih =>
    rw [take]
    split_ifs with hmet
    · exact ⟨[], (List.append_nil seen).symm, List.nodup_nil, by simp⟩
    · rcases D.doc n with e | items
      · exact ⟨[D.key n], rfl, fresh_cons_iff.mpr ⟨hmet, List.nodup_nil, by simp⟩⟩
      · obtain ⟨ks, hks, hfresh⟩ := takeItems_visited_of_take ih items (seen ++ [D.key n])
        exact ⟨D.key n :: ks, hks.trans (List.append_cons ..).symm,
          fresh_cons_iff.mpr ⟨hmet, hfresh⟩⟩

/-- **What has been met**, however the expansion ends: new keys, each of them once. -/
theorem takeItems_visited (d : Nat) (items : List (Item T N ε)) (seen : List K) :
    ∃ ks, (takeItems (take D again tooDeep d) items seen).2 = seen ++ ks ∧ Fresh seen ks :=
  takeItems_visited_of_take (take_visited d) items seen

end Take

/-! ## The tree of documents -/

/-- The document `n` stands at a place below the items: the numbers of the items on the way. -/
inductive Occurs (D : Docs T N K ε) : List (Item T N ε) → List Nat → N → Prop where
  | here {n rest} : Occurs D (.file n :: rest) [0] n
  | inside {n items rest p m} (hdoc : D.doc n = .ok items) (hitems : Occurs D items p m) :
      Occurs D (.file n :: rest) (0 :: p) m
  | later {item rest i p m} (hrest : Occurs D rest (i :: p) m) :
      Occurs D (item :: rest) ((i + 1) :: p) m

namespace Occurs

variable {D : Docs T N K ε} {items items' : List (Item T N ε)} {p q : List Nat} {n m : N}

theorem ne_nil (h : Occurs D items p n) : p ≠ [] := by
  cases h <;> exact List.cons_ne_nil _ _

/-- The same place, with an item before it. -/
theorem exists_later {item : Item T N ε} (h : Occurs D items p n) :
    ∃ i q, p = i :: q ∧ Occurs D (item :: items) ((i + 1) :: q) n := by
  obtain ⟨i, q, rfl⟩ := List.exists_cons_of_ne_nil h.ne_nil
  exact ⟨i, q, rfl, .later h⟩

theorem append (h : Occurs D items p n) (hdoc : D.doc n = .ok items') (h' : Occurs D items' q m) :
    Occurs D items (p ++ q) m := by
  induction h with
  | here => exact .inside hdoc h'
  | inside hdoc' _ ih => exact .inside hdoc' (ih hdoc)
  | later _ ih => exact .later (ih hdoc)

/-- The place in other documents that agree with the first ones on the way. -/
theorem map {T' ε' : Type} {D' : Docs T' N K ε'} {f : T → T'} {g : ε → ε'}
    (hdoc : ∀ p n items', Occurs D' (items.map (Item.map f g)) p n → D.doc n = .ok items' →
      D'.doc n = .ok (items'.map (Item.map f g)))
    (h : Occurs D items p n) : Occurs D' (items.map (Item.map f g)) p n := by
  induction h with
  | here => exact .here
  | inside hdocn _ ih =>
    have hdocn' := hdoc _ _ _ .here hdocn
    exact .inside hdocn' (ih fun p n items' hp => hdoc _ n items' (.inside hdocn' hp))
  | later _ ih =>
    refine .later (ih fun p n items' hp => ?_)
    obtain ⟨i, q, rfl, hp'⟩ := hp.exists_later
    exact hdoc _ n items' hp'

end Occurs

section Tree

variable {D : Docs T N K ε} {d : Nat} {items rest : List (Item T N ε)} {ts : List T} {ks : List K}

theorem not_occurs_nil {p : List Nat} {m : N} : ¬ Occurs D [] p m := by
  rintro ⟨⟩

theorem occurs_text_iff {t : T} {p : List Nat} {m : N} : Occurs D (.text t :: rest) p m ↔
    ∃ i q, p = (i + 1) :: q ∧ Occurs D rest (i :: q) m := by
  constructor
  · intro h
    obtain _ | _ | hrest := h
    exact ⟨_, _, rfl, hrest⟩
  · rintro ⟨i, q, rfl, hrest⟩
    exact .later hrest

/-- The places below a document that is taken in: its own, those in it, and those after it. -/
theorem occurs_cons_iff {n m : N} {items : List (Item T N ε)} (hdoc : D.doc n = .ok items)
    {p : List Nat} : Occurs D (.file n :: rest) p m ↔
      (p = [0] ∧ m = n) ∨ (∃ q, p = 0 :: q ∧ Occurs D items q m) ∨
        ∃ i q, p = (i + 1) :: q ∧ Occurs D rest (i :: q) m := by
  constructor
  · intro h
    obtain _ | ⟨hdoc', hitems⟩ | hrest := h
    · exact .inl ⟨rfl, rfl⟩
    · rw [hdoc] at hdoc'
      obtain rfl := Except.ok.inj hdoc'
      exact .inr (.inl ⟨_, rfl, hitems⟩)
    · exact .inr (.inr ⟨_, _, rfl, hrest⟩)
  · rintro (⟨rfl, rfl⟩ | ⟨q, rfl, hitems⟩ | ⟨i, q, rfl, hrest⟩)
    · exact .here
    · exact .inside hdoc hitems
    · exact .later hrest

/-- The keys of an expansion are those of the documents in the tree. -/
theorem mem_iff_occurs (h : Expands D d items ts ks) {k : K} :
    k ∈ ks ↔ ∃ p n, Occurs D items p n ∧ D.key n = k := by
  induction h with
  | nil => simp [not_occurs_nil]
  | text _ ih =>
    rw [ih]
    constructor
    · rintro ⟨p, n, hoccurs, hkey⟩
      obtain ⟨i, q, rfl, hlater⟩ := hoccurs.exists_later
      exact ⟨_, n, hlater, hkey⟩
    · rintro ⟨p, n, hoccurs, hkey⟩
      obtain ⟨i, q, rfl, hrest⟩ := occurs_text_iff.mp hoccurs
      exact ⟨_, n, hrest, hkey⟩
  | @file _ n _ _ _ _ _ _ hdoc _ _ ih ih' =>
    rw [List.mem_cons, List.mem_append, ih, ih']
    constructor
    · rintro (rfl | ⟨p, m, hoccurs, hkey⟩ | ⟨p, m, hoccurs, hkey⟩)
      · exact ⟨_, n, .here, rfl⟩
      · exact ⟨_, m, .inside hdoc hoccurs, hkey⟩
      · obtain ⟨i, q, rfl, hlater⟩ := hoccurs.exists_later
        exact ⟨_, m, hlater, hkey⟩
    · rintro ⟨p, m, hoccurs, hkey⟩
      rcases (occurs_cons_iff hdoc).mp hoccurs with ⟨-, rfl⟩ | ⟨q, -, hitems⟩ | ⟨i, q, -, hrest⟩
      · exact .inl hkey.symm
      · exact .inr (.inl ⟨_, m, hitems, hkey⟩)
      · exact .inr (.inr ⟨_, m, hrest, hkey⟩)

theorem disjoint_iff_occurs {d' : Nat} {ts' : List T} {ks' : List K}
    (h : Expands D d items ts ks) (h' : Expands D d' rest ts' ks') :
    ks.Disjoint ks' ↔
      ∀ p q n m, Occurs D items p n → Occurs D rest q m → D.key n ≠ D.key m := by
  rw [List.disjoint_left]
  constructor
  · intro hdisjoint p q n m hp hq hkey
    exact hdisjoint ((mem_iff_occurs h).mpr ⟨p, n, hp, rfl⟩)
      ((mem_iff_occurs h').mpr ⟨q, m, hq, hkey.symm⟩)
  · intro hne k hk hk'
    obtain ⟨p, n, hp, rfl⟩ := (mem_iff_occurs h).mp hk
    obtain ⟨q, m, hq, hkey⟩ := (mem_iff_occurs h').mp hk'
    exact hne p q n m hp hq hkey.symm

/-- No two places hold documents of one key. -/
def OnePlace (D : Docs T N K ε) (items : List (Item T N ε)) : Prop :=
  ∀ p q n m, Occurs D items p n → Occurs D items q m → D.key n = D.key m → p = q

theorem onePlace_text_iff {t : T} : OnePlace D (.text t :: rest) ↔ OnePlace D rest := by
  constructor
  · intro hone p q n m hp hq hkey
    obtain ⟨i, p, rfl, hp'⟩ := hp.exists_later
    obtain ⟨j, q, rfl, hq'⟩ := hq.exists_later
    obtain ⟨hij, rfl⟩ := List.cons.inj (hone _ _ n m hp' hq' hkey)
    rw [Nat.succ.inj hij]
  · intro hone p q n m hp hq hkey
    obtain ⟨i, p, rfl, hp'⟩ := occurs_text_iff.mp hp
    obtain ⟨j, q, rfl, hq'⟩ := occurs_text_iff.mp hq
    obtain ⟨rfl, rfl⟩ := List.cons.inj (hone _ _ n m hp' hq' hkey)
    rfl

theorem onePlace_file_iff {n : N} (hdoc : D.doc n = .ok items) :
    OnePlace D (.file n :: rest) ↔
      (∀ p m, Occurs D items p m → D.key m ≠ D.key n) ∧
      (∀ p m, Occurs D rest p m → D.key m ≠ D.key n) ∧
      OnePlace D items ∧ OnePlace D rest ∧
      ∀ p q m m', Occurs D items p m → Occurs D rest q m' → D.key m ≠ D.key m' := by
  constructor
  · intro hone
    refine ⟨?_, ?_, ?_, ?_, ?_⟩
    · intro p m hp hkey
      exact hp.ne_nil (List.cons.inj (hone _ _ m n (.inside hdoc hp) .here hkey)).2
    · intro p m hp hkey
      obtain ⟨i, q, rfl, hp'⟩ := hp.exists_later
      cases hone _ _ m n hp' .here hkey
    · intro p q m m' hp hq hkey
      exact (List.cons.inj (hone _ _ m m' (.inside hdoc hp) (.inside hdoc hq) hkey)).2
    · intro p q m m' hp hq hkey
      obtain ⟨i, p, rfl, hp'⟩ := hp.exists_later
      obtain ⟨j, q, rfl, hq'⟩ := hq.exists_later
      obtain ⟨hij, rfl⟩ := List.cons.inj (hone _ _ m m' hp' hq' hkey)
      rw [Nat.succ.inj hij]
    · intro p q m m' hp hq hkey
      obtain ⟨j, q, rfl, hq'⟩ := hq.exists_later
      cases hone _ _ m m' (.inside hdoc hp) hq' hkey
  · rintro ⟨hin, hafter, hone, hone', hboth⟩ p q m m' hp hq hkey
    -- a place is the document's own, or inside it, or after it
    rcases (occurs_cons_iff hdoc).mp hp with ⟨rfl, rfl⟩ | ⟨p, rfl, hp'⟩ | ⟨i, p, rfl, hp'⟩
    · rcases (occurs_cons_iff hdoc).mp hq with ⟨rfl, rfl⟩ | ⟨q, rfl, hq'⟩ | ⟨j, q, rfl, hq'⟩
      · rfl
      · exact absurd hkey.symm (hin _ _ hq')
      · exact absurd hkey.symm (hafter _ _ hq')
    · rcases (occurs_cons_iff hdoc).mp hq with ⟨rfl, rfl⟩ | ⟨q, rfl, hq'⟩ | ⟨j, q, rfl, hq'⟩
      · exact absurd hkey (hin _ _ hp')
      · rw [hone p q m m' hp' hq' hkey]
      · exact absurd hkey (hboth _ _ m m' hp' hq')
    · rcases (occurs_cons_iff hdoc).mp hq with ⟨rfl, rfl⟩ | ⟨q, rfl, hq'⟩ | ⟨j, q, rfl, hq'⟩
      · exact absurd hkey (hafter _ _ hp')
      · exact absurd hkey.symm (hboth _ _ m' m hq' hp')
      · obtain ⟨rfl, rfl⟩ := List.cons.inj (hone' _ _ m m' hp' hq' hkey)
        rfl

theorem notMem_iff_occurs (h : Expands D d items ts ks) {k : K} :
    k ∉ ks ↔ ∀ p n, Occurs D items p n → D.key n ≠ k := by
  rw [mem_iff_occurs h]
  simp only [not_exists, not_and]

/-- **No key comes twice** in an expansion exactly when no two places hold documents of one key. -/
theorem nodup_iff_occurs (h : Expands D d items ts ks) : ks.Nodup ↔ OnePlace D items := by
  induction h with
  | nil => exact iff_of_true List.nodup_nil fun p q n m h => absurd h not_occurs_nil
  | text _ ih => rw [ih, onePlace_text_iff]
  | file hdoc hitems hrest ih ih' =>
    rw [List.nodup_cons, List.nodup_append', List.mem_append, not_or, ih, ih', and_assoc,
      notMem_iff_occurs hitems, notMem_iff_occurs hrest, disjoint_iff_occurs hitems hrest,
      onePlace_file_iff hdoc]

/-- A document that can be taken in, as far as its own items go. -/
def Sound (D : Docs T N K ε) (n : N) : Prop :=
  ∃ items, D.doc n = .ok items ∧ ∀ e, .fail e ∉ items

theorem sound_of_occurs (h : Expands D d items ts ks) {p : List Nat} {n : N}
    (hp : Occurs D items p n) : p.length ≤ d ∧ Sound D n := by
  induction h generalizing p n with
  | nil => exact absurd hp not_occurs_nil
  | text _ ih =>
    obtain ⟨i, q, rfl, hq⟩ := occurs_text_iff.mp hp
    have := ih hq
    exact this
  | file hdoc hitems _ ih ih' =>
    rcases (occurs_cons_iff hdoc).mp hp with ⟨rfl, rfl⟩ | ⟨q, rfl, hq⟩ | ⟨i, q, rfl, hq⟩
    · exact ⟨Nat.succ_le_succ (Nat.zero_le _), _, hdoc, hitems.fail_notMem⟩
    · exact ⟨Nat.succ_le_succ (ih hq).1, (ih hq).2⟩
    · have := ih' hq
      exact this

/-- Items have an expansion when all documents below them can be taken in and none is too deep. -/
theorem exists_expands (hfail : ∀ e, .fail e ∉ items)
    (hall : ∀ p n, Occurs D items p n → p.length ≤ d ∧ Sound D n) :
    ∃ ts ks, Expands D d items ts ks := by
  have hlater : ∀ {d item} {rest : List (Item T N ε)},
      (∀ p n, Occurs D (item :: rest) p n → p.length ≤ d ∧ Sound D n) →
        ∀ p n, Occurs D rest p n → p.length ≤ d ∧ Sound D n := by
    intro d item rest hall p n hp
    obtain ⟨i, q, rfl, hp'⟩ := hp.exists_later
    have := hall _ n hp'
    exact this
  induction d generalizing items with
  | zero =>
    induction items with
    | nil => exact ⟨[], [], .nil⟩
    | cons item rest ih =>
      cases item with
      | text t =>
        obtain ⟨ts, ks, hrest⟩ := ih (fun e he => hfail e (List.mem_cons_of_mem _ he)) (hlater hall)
        exact ⟨t :: ts, ks, .text hrest⟩
      -- the depth is used up, and a file here would be one too deep
      | file n => exact absurd (hall _ n .here).1 (by simp)
      | fail e => exact absurd List.mem_cons_self (hfail e)
  | succ d ihd =>
    induction items with
    | nil => exact ⟨[], [], .nil⟩
    | cons item rest ih =>
      obtain ⟨ts, ks, hrest⟩ := ih (fun e he => hfail e (List.mem_cons_of_mem _ he)) (hlater hall)
      cases item with
      | text t => exact ⟨t :: ts, ks, .text hrest⟩
      | file n =>
        obtain ⟨items, hdoc, hfail'⟩ := (hall _ n .here).2
        obtain ⟨ts', ks', hitems⟩ := ihd hfail' fun p m hp =>
          ⟨Nat.le_of_succ_le_succ (hall _ m (.inside hdoc hp)).1, (hall _ m (.inside hdoc hp)).2⟩
        exact ⟨_, _, .file hdoc hitems hrest⟩
      | fail e => exact absurd List.mem_cons_self (hfail e)

end Tree

/-! ## The texts of an expansion -/

section Texts

variable {D : Docs T N K ε} {d : Nat} {items rest : List (Item T N ε)} {ts : List T} {ks : List K}
  {P B L : T → Prop}

/-- What holds of the texts of each document holds of the texts of an expansion. -/
theorem Expands.forall_text (h : Expands D d items ts ks) (hitems : ∀ t, .text t ∈ items → P t)
    (hdocs : ∀ n items', D.doc n = .ok items' → ∀ t, .text t ∈ items' → P t) : ∀ t ∈ ts, P t := by
  induction h with
  | nil => simp
  | text _ ih =>
    rw [List.forall_mem_cons]
    exact ⟨hitems _ List.mem_cons_self, ih fun t ht => hitems t (List.mem_cons_of_mem _ ht)⟩
  | file hdoc _ _ ih ih' =>
    rw [List.forall_mem_append]
    exact ⟨ih (hdocs _ _ hdoc), ih' fun t ht => hitems t (List.mem_cons_of_mem _ ht)⟩

/-- A text with `P` stands in the items or below them. -/
inductive Holds (D : Docs T N K ε) (P : T → Prop) : List (Item T N ε) → Prop where
  | text {t items} (ht : P t) (hmem : .text t ∈ items) : Holds D P items
  | file {n items items'} (hmem : .file n ∈ items) (hdoc : D.doc n = .ok items')
      (hitems : Holds D P items') : Holds D P items

theorem holds_iff_exists : Holds D P items ↔ ∃ item ∈ items, Holds D P [item] := by
  constructor
  · intro h
    cases h with
    | text ht hmem => exact ⟨_, hmem, .text ht (List.mem_singleton_self _)⟩
    | file hmem hdoc hitems => exact ⟨_, hmem, .file (List.mem_singleton_self _) hdoc hitems⟩
  · rintro ⟨item, hmem, h⟩
    cases h with
    | text ht hmem' => exact .text ht (List.mem_singleton.mp hmem' ▸ hmem)
    | file hmem' hdoc hitems => exact .file (List.mem_singleton.mp hmem' ▸ hmem) hdoc hitems

theorem holds_nil : ¬ Holds D P [] := by
  rw [holds_iff_exists]
  simp

theorem holds_cons_iff {item : Item T N ε} :
    Holds D P (item :: rest) ↔ Holds D P [item] ∨ Holds D P rest := by
  rw [holds_iff_exists, @holds_iff_exists _ _ _ _ D rest]
  simp only [List.mem_cons, exists_eq_or_imp]

theorem holds_text_iff {t : T} : Holds D P [.text t] ↔ P t := by
  constructor
  · intro h
    cases h with
    | text ht hmem =>
      obtain rfl := Item.text.inj (List.mem_singleton.mp hmem)
      exact ht
    | file hmem _ _ => cases List.mem_singleton.mp hmem
  · exact fun ht => .text ht (List.mem_singleton_self _)

theorem holds_file_iff {n : N} (hdoc : D.doc n = .ok items) :
    Holds D P [.file n] ↔ Holds D P items := by
  constructor
  · intro h
    cases h with
    | text _ hmem => cases List.mem_singleton.mp hmem
    | file hmem hdoc' hitems =>
      obtain rfl := Item.file.inj (List.mem_singleton.mp hmem)
      rw [hdoc] at hdoc'
      obtain rfl := Except.ok.inj hdoc'
      exact hitems
  · exact fun h => .file (List.mem_singleton_self _) hdoc h

theorem holds_iff (h : Expands D d items ts ks) : Holds D P items ↔ ∃ t ∈ ts, P t := by
  induction h with
  | nil => simp [holds_nil]
  | text _ ih =>
    rw [holds_cons_iff, holds_text_iff, ih]
    simp only [List.mem_cons, exists_eq_or_imp]
  | file hdoc _ _ ih ih' =>
    rw [holds_cons_iff, holds_file_iff hdoc, ih, ih']
    simp only [List.mem_append, or_and_right, exists_or]

/-- In the items themselves and in every document of the tree: after an item with a `B` below it
there is none with an `L`. -/
def Ordered (D : Docs T N K ε) (B L : T → Prop) (items : List (Item T N ε)) : Prop :=
  (items.Pairwise fun x y => Holds D B [x] → ¬ Holds D L [y]) ∧
    ∀ p n items', Occurs D items p n → D.doc n = .ok items' →
      items'.Pairwise fun x y => Holds D B [x] → ¬ Holds D L [y]

theorem pairwise_cons_iff {item : Item T N ε} :
    ((item :: rest).Pairwise fun x y => Holds D B [x] → ¬ Holds D L [y]) ↔
      (Holds D B [item] → ¬ Holds D L rest) ∧
        rest.Pairwise fun x y => Holds D B [x] → ¬ Holds D L [y] := by
  rw [List.pairwise_cons, @holds_iff_exists _ _ _ _ D rest]
  refine and_congr_left fun _ => ⟨?_, ?_⟩
  · rintro h hB ⟨y, hy, hL⟩
    exact h y hy hB hL
  · intro h y hy hB hL
    exact h hB ⟨y, hy, hL⟩

theorem ordered_text_iff {t : T} : Ordered D B L (.text t :: rest) ↔
    (B t → ¬ Holds D L rest) ∧ Ordered D B L rest := by
  rw [Ordered, Ordered, pairwise_cons_iff, holds_text_iff, and_assoc]
  refine and_congr_right fun _ => and_congr_right fun _ => ⟨?_, ?_⟩
  · intro h p n items' hp hdoc
    obtain ⟨i, q, rfl, hp'⟩ := hp.exists_later
    exact h _ n items' hp' hdoc
  · intro h p n items' hp hdoc
    obtain ⟨i, q, rfl, hq⟩ := occurs_text_iff.mp hp
    exact h _ n items' hq hdoc

theorem ordered_file_iff {n : N} (hdoc : D.doc n = .ok items) :
    Ordered D B L (.file n :: rest) ↔
      Ordered D B L items ∧ (Holds D B items → ¬ Holds D L rest) ∧ Ordered D B L rest := by
  rw [Ordered, pairwise_cons_iff, holds_file_iff hdoc]
  constructor
  · rintro ⟨⟨hfirst, hrest⟩, hall⟩
    refine ⟨⟨hall _ n items .here hdoc, fun p m items' hp => ?_⟩, hfirst, hrest, ?_⟩
    · exact hall _ m items' (.inside hdoc hp)
    · intro p m items' hp
      obtain ⟨i, q, rfl, hp'⟩ := hp.exists_later
      exact hall _ m items' hp'
  · rintro ⟨⟨hitems, hinside⟩, hfirst, hrest, hlater⟩
    refine ⟨⟨hfirst, hrest⟩, fun p m items' hp hdoc' => ?_⟩
    rcases (occurs_cons_iff hdoc).mp hp with ⟨rfl, rfl⟩ | ⟨q, rfl, hq⟩ | ⟨i, q, rfl, hq⟩
    · rw [hdoc] at hdoc'
      obtain rfl := Except.ok.inj hdoc'
      exact hitems
    · exact hinside q m items' hq hdoc'
    · exact hlater _ m items' hq hdoc'

/-- **No `L` comes after a `B`** in an expansion exactly when that is so in each document. -/
theorem pairwise_iff_ordered (h : Expands D d items ts ks) :
    (ts.Pairwise fun a b => B a → ¬ L b) ↔ Ordered D B L items := by
  induction h with
  | nil => exact iff_of_true .nil ⟨.nil, fun p n items' hp => absurd hp not_occurs_nil⟩
  | text hrest ih =>
    rw [List.pairwise_cons, ordered_text_iff, ih, holds_iff hrest]
    refine and_congr_left fun _ => ⟨?_, ?_⟩
    · rintro h hB ⟨b, hb, hL⟩
      exact h b hb hB hL
    · intro h b hb hB hL
      exact h hB ⟨b, hb, hL⟩
  | file hdoc hitems hrest ih ih' =>
    rw [List.pairwise_append, ordered_file_iff hdoc, ih, ih', holds_iff hitems, holds_iff hrest]
    refine and_congr_right fun _ => ?_
    rw [and_comm]
    refine and_congr_left fun _ => ⟨?_, ?_⟩
    · rintro h ⟨a, ha, hB⟩ ⟨b, hb, hL⟩
      exact h a ha b hb hB hL
    · intro h a ha b hb hB hL
      exact h ⟨a, ha, hB⟩ ⟨b, hb, hL⟩

end Texts

end Splice
