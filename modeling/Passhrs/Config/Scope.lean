import Passhrs.Config.Include

/-!
# The block that a directive belongs to

A directive belongs to the last `Host` or `Match` line before it. In the merged text that may be a
line of another file.

* **`scopesKept_iff`**: when each directive of a merged text is in the block of its own file. The
  directives before the first block of a file are lost where an include before them brings a block.
-/

namespace Passhrs

open SlashPath Splice Text

/-- The last block line. -/
def lastBlock (ls : List String) : Option String := ls.foldl scopeAfter none

def IsBlock (t : ConfigText) : Prop := lineKind t.line = .block

/-- A line with a keyword that opens no block. -/
def IsDirective (t : ConfigText) : Prop := (splitLine t.line).isSome ∧ ¬ IsBlock t

/-- A directive that is in no block of its own file. -/
def IsLoose (t : ConfigText) : Prop := IsDirective t ∧ t.scope = none

/-- The lines that are merged, each with the last block before it in its own file. -/
def Merged (w : ConfigWorld) (host content base : String) (ts : List ConfigText) : Prop :=
  ∃ d ks, Expands (includeDocs w host) d (itemsFrom w host base none (lines content)) ts ks

/-- Each directive has the same block before it as in its own file. -/
def ScopesKept (ts : List ConfigText) : Prop :=
  ∀ before t after, ts = before ++ t :: after → IsDirective t →
    lastBlock (before.map ConfigText.line) = t.scope

/-- In the configuration and in each file below it: no line that brings a loose directive, its own
or one of a file, stands after a line that brings a block. -/
def LooseFirst (w : ConfigWorld) (host content base : String) : Prop :=
  Ordered (includeDocs w host) IsBlock IsLoose (itemsFrom w host base none (lines content))

/-! ## Lines with their blocks -/

section Blocks

variable {w : ConfigWorld} {host base : String}

theorem text_notMem_includeItems {seenBlock : Bool} {line value : String} {t : ConfigText} :
    .text t ∉ includeItems w host base seenBlock line value := by
  rw [includeItems]
  split_ifs
  · simp
  · simp
  · rcases expandGlob w (patternPath w host base value) with e | _ | ⟨path, rest⟩ <;> simp

/-- The items have the blocks of their own file, and name files only outside of blocks. -/
def Tracked : Option String → List ConfigItem → Prop
  | _, [] => True
  | scope, .text t :: rest => t.scope = scope ∧ Tracked (scopeAfter scope t.line) rest
  | scope, .file _ :: rest => scope = none ∧ Tracked scope rest
  | _, .fail _ :: _ => True

theorem tracked_matched {items : List ConfigItem} (h : Tracked none items) (matched : List String) :
    Tracked none ((matched.map fun path => .file (includedFrom base path)) ++ items) := by
  induction matched with
  | nil => exact h
  | cons path rest ih => exact ⟨rfl, ih⟩

theorem tracked_itemsFrom (scope : Option String) (ls : List String) :
    Tracked scope (itemsFrom w host base scope ls) := by
  induction ls generalizing scope with
  | nil => trivial
  | cons line rest ih =>
    rw [itemsFrom, lineItems]
    cases hline : lineKind line with
    | other => exact ⟨rfl, ih _⟩
    | block => exact ⟨rfl, ih _⟩
    | bareInclude => trivial
    | includes value =>
      have hrest : Tracked scope (itemsFrom w host base (scopeAfter scope line) rest) := by
        rw [scopeAfter, hline]
        exact ih scope
      dsimp only
      rw [includeItems]
      cases scope with
      -- an Include inside a block is an error
      | some block => trivial
      | none =>
        rw [Option.isSome_none, if_neg Bool.false_ne_true]
        split_ifs
        · trivial
        · rcases expandGlob w (patternPath w host base value) with e | _ | ⟨path, rest⟩
          · trivial
          · trivial
          · exact tracked_matched hrest _

theorem tracked_doc {file : IncludedFile} {items : List ConfigItem}
    (hdoc : (includeDocs w host).doc file = .ok items) : Tracked none items := by
  obtain ⟨content, -, rfl⟩ := includeDocs_doc_eq_ok_iff.mp hdoc
  exact tracked_itemsFrom none (lines content)

end Blocks

/-! ## Lines in a merged text -/

/-- The lines with `P` have the right block before them, when `last` is the block before all. -/
def Kept (P : ConfigText → Prop) (last : Option String) (ts : List ConfigText) : Prop :=
  ∀ before t after, ts = before ++ t :: after → P t →
    (before.map ConfigText.line).foldl scopeAfter last = t.scope

section Kept

variable {P : ConfigText → Prop} {last : Option String} {t : ConfigText} {ts ts' : List ConfigText}

theorem kept_nil : Kept P last [] := by
  intro before t after h
  cases before <;> cases h

theorem kept_cons_iff :
    Kept P last (t :: ts) ↔ (P t → last = t.scope) ∧ Kept P (scopeAfter last t.line) ts := by
  constructor
  · intro h
    refine ⟨h [] t ts rfl, fun before t' after heq => ?_⟩
    exact h (t :: before) t' after (by rw [heq, List.cons_append])
  · rintro ⟨hfirst, hrest⟩ before t' after heq
    cases before with
    | nil =>
      obtain ⟨rfl, rfl⟩ := List.cons.inj heq
      exact hfirst
    | cons t'' before =>
      obtain ⟨rfl, rfl⟩ := List.cons.inj heq
      exact hrest before t' after rfl

theorem kept_append (h : Kept P last ts)
    (h' : Kept P ((ts.map ConfigText.line).foldl scopeAfter last) ts') :
    Kept P last (ts ++ ts') := by
  induction ts generalizing last with
  | nil => exact h'
  | cons t rest ih =>
    obtain ⟨hfirst, hrest⟩ := kept_cons_iff.mp h
    exact kept_cons_iff.mpr ⟨hfirst, ih hrest h'⟩

/-- What is in a block of its file has this block before it, whatever comes before the file. -/
theorem kept_of_tracked {w : ConfigWorld} {host : String} {d : Nat} {items : List ConfigItem}
    {ks : List String} (h : Expands (includeDocs w host) d items ts ks) {scope : Option String}
    (htracked : Tracked scope items) (hlast : scope ≠ none → last = scope) :
    Kept (fun t => t.scope ≠ none) last ts := by
  induction h generalizing scope last with
  | nil => exact kept_nil
  | @text _ t _ _ _ _ ih =>
    obtain ⟨rfl, hrest⟩ := htracked
    refine kept_cons_iff.mpr ⟨hlast, ih hrest fun hafter => ?_⟩
    rw [scopeAfter, scopeAfter] at *
    split_ifs at hafter ⊢
    · rfl
    · exact hlast hafter
  | file hdoc _ _ ih ih' =>
    obtain ⟨rfl, hrest⟩ := htracked
    exact kept_append (ih (tracked_doc hdoc) fun h => absurd rfl h)
      (ih' hrest fun h => absurd rfl h)

/-- What is in a block keeps it, so all depends on what is in none. -/
theorem kept_directives_iff (h : Kept (fun t => t.scope ≠ none) last ts) :
    Kept IsDirective last ts ↔
      (last ≠ none → ∀ t ∈ ts, ¬ IsLoose t) ∧ ts.Pairwise fun a b => IsBlock a → ¬ IsLoose b := by
  induction ts generalizing last with
  | nil => exact iff_of_true kept_nil ⟨fun _ => by simp, .nil⟩
  | cons t rest ih =>
    obtain ⟨hfirst, hrest⟩ := kept_cons_iff.mp h
    have ht : (IsDirective t → last = t.scope) ↔ (last ≠ none → ¬ IsLoose t) := by
      rw [IsLoose]
      by_cases hscope : t.scope = none
      · rw [hscope]
        tauto
      · have := hfirst hscope
        tauto
    have hafter : scopeAfter last t.line ≠ none ↔ IsBlock t ∨ last ≠ none := by
      rw [scopeAfter, IsBlock]
      split_ifs with hblock
      · simp [hblock]
      · simp [hblock]
    have hswap : (∀ b ∈ rest, IsBlock t → ¬ IsLoose b) ↔ (IsBlock t → ∀ b ∈ rest, ¬ IsLoose b) :=
      ⟨fun h hb b hmem => h b hmem hb, fun h b hmem hb => h hb b hmem⟩
    rw [kept_cons_iff, ih hrest, ht, hafter, List.forall_mem_cons, List.pairwise_cons, hswap]
    constructor
    · rintro ⟨hloose, hrest, hpairs⟩
      exact ⟨fun hne => ⟨hloose hne, hrest (.inr hne)⟩, fun hblock => hrest (.inl hblock), hpairs⟩
    · rintro ⟨hloose, hblock, hpairs⟩
      exact ⟨fun hne => (hloose hne).1, fun h => h.elim hblock fun hne => (hloose hne).2, hpairs⟩

theorem scopesKept_iff_pairwise (h : Kept (fun t => t.scope ≠ none) none ts) :
    ScopesKept ts ↔ ts.Pairwise fun a b => IsBlock a → ¬ IsLoose b :=
  (kept_directives_iff h).trans (and_iff_right fun hne => absurd rfl hne)

end Kept

/-! ## The merged text -/

/-- **When directives stay in their blocks**: a merged text has the lines of the configuration and
of all files below it, and each directive is in the block of its own file exactly when loose ones
come before all blocks. -/
theorem scopesKept_iff {w : ConfigWorld} {host content base s : String}
    (h : (mergeIncludes w host content base).1 = .ok s) :
    ∃ ts, Merged w host content base ts ∧ s = render ts ∧
      (ScopesKept ts ↔ LooseFirst w host content base) := by
  obtain ⟨d, ts, ks, -, hexpands, -, rfl⟩ := preprocessIncludes_eq_ok_iff.mp h
  have hkept : Kept (fun t => t.scope ≠ none) none ts :=
    kept_of_tracked hexpands (tracked_itemsFrom none _) fun hne => absurd rfl hne
  exact ⟨ts, ⟨d, ks, hexpands⟩, rfl,
    (scopesKept_iff_pairwise hkept).trans (pairwise_iff_ordered hexpands)⟩

/-- One file at the root, with a block. -/
def hostFile : ConfigWorld where
  readToString path := if path = "/hosts" then .ok "Host db\nUser carol\n" else .error "not found"
  canonicalize path := some path
  isDir _ := false
  readDir _ := .error "not found"
  homeDir := none
  username := none
  glob _ := none

theorem loose_before_hosts :
    ∃ ts, Merged hostFile "db" "User bob\nInclude hosts\n" "/" ts ∧
      "User bob\nHost db\nUser carol\n" = render ts ∧
      (ScopesKept ts ↔ LooseFirst hostFile "db" "User bob\nInclude hosts\n" "/") :=
  scopesKept_iff (by decide +kernel)

/-- The user behind the included hosts becomes the user of one of them. -/
theorem user_in_included_host :
    (mergeIncludes hostFile "db" "Include hosts\nUser bob\n" "/").1 =
        .ok "Host db\nUser carol\nUser bob\n" ∧
      ∃ ts, Merged hostFile "db" "Include hosts\nUser bob\n" "/" ts ∧
        "Host db\nUser carol\nUser bob\n" = render ts ∧ ¬ ScopesKept ts := by
  have hitems : itemsFrom hostFile "db" "/" none (lines "Include hosts\nUser bob\n") =
      [.file ⟨"/hosts", "/"⟩, .text ⟨"User bob", none⟩] := by decide +kernel
  have hdoc : (includeDocs hostFile "db").doc ⟨"/hosts", "/"⟩ =
      .ok [.text ⟨"Host db", none⟩, .text ⟨"User carol", some "Host db"⟩] := by decide +kernel
  have hmerged : Merged hostFile "db" "Include hosts\nUser bob\n" "/"
      [⟨"Host db", none⟩, ⟨"User carol", some "Host db"⟩, ⟨"User bob", none⟩] := by
    refine ⟨1, ["/hosts"], ?_⟩
    rw [hitems]
    exact .file hdoc (.text (.text .nil)) (.text .nil)
  refine ⟨by decide +kernel, _, hmerged, by decide +kernel, fun hkept => ?_⟩
  have hblock := hkept [⟨"Host db", none⟩, ⟨"User carol", some "Host db"⟩] ⟨"User bob", none⟩ [] rfl
    ⟨by decide, by unfold IsBlock; decide⟩
  cases hblock.symm.trans (by decide : lastBlock ["Host db", "User carol"] = some "Host db")

end Passhrs
