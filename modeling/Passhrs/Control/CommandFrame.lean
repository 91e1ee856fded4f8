import Passhrs.Control.Frames

/-!
# The command frame on any stream

`read_cmd_frame` reads a stream that comes in any segments and then ends. It takes the end of the
stream in the length header for an end before it.

* **`readCmdFrame_eq_some_iff`**: what is read is what was written, to the byte.
* **`readCmdFrame_eq_none_iff`**: nothing is read where there are less than four bytes.
* **`readCmdFrameFrom_exact_iff`**: the reader tells nothing sent from a frame that is cut exactly
  when the stream does not end in its header.
-/

namespace Passhrs

/-! ## Streams in segments -/

/-- `read_cmd_frame`, on the segments that the reads return. -/
def readCmdFrameFrom (rx : List Bytes) : Except String (Option (Bytes × List Bytes)) :=
  match Bytes.readExactFrom 4 rx with
  | none => .ok none
  | some (header, rx) =>
    match Bytes.readExactFrom (Bytes.ofBe32 header).toNat rx with
    | none => .error "early eof"
    | some (payload, rest) => .ok (some (payload, rest))

/-- How the stream is cut makes no difference. -/
theorem readCmdFrame_flatten (segments : List Bytes) :
    readCmdFrame segments.flatten =
      (readCmdFrameFrom segments).map (Option.map (Prod.map id List.flatten)) := by
  unfold readCmdFrame readCmdFrameFrom
  rw [Bytes.readExact_flatten]
  rcases Bytes.readExactFrom 4 segments with _ | ⟨header, rx⟩
  · rfl
  rw [Option.map_some]
  dsimp only
  rw [Bytes.readExact_flatten]
  rcases Bytes.readExactFrom (Bytes.ofBe32 header).toNat rx with _ | ⟨payload, rest⟩
  · rfl
  · rfl

/-! ## What is read -/

section Flat

variable {rx payload rest : Bytes}

theorem readCmdFrame_eq_none_iff : readCmdFrame rx = .ok none ↔ rx.length < 4 := by
  unfold readCmdFrame
  rcases hheader : Bytes.readExact 4 rx with _ | ⟨header, tail⟩
  · refine iff_of_true rfl (Nat.not_le.mp fun hle => ?_)
    rw [Bytes.readExact, if_pos hle] at hheader
    cases hheader
  · obtain ⟨rfl, hlength⟩ := Bytes.readExact_eq_some hheader
    refine iff_of_false ?_ (by simp [hlength])
    dsimp only
    split
    · rintro ⟨⟩
    · rintro ⟨⟩

/-- **Reading undoes writing, and only that.** -/
theorem readCmdFrame_eq_some_iff :
    readCmdFrame rx = .ok (some (payload, rest)) ↔
      payload.length < 2 ^ 32 ∧ rx = writeCmdFrame payload ++ rest := by
  constructor
  · intro h
    unfold readCmdFrame at h
    rcases hheader : Bytes.readExact 4 rx with _ | ⟨header, tail⟩
    · rw [hheader] at h
      cases h
    rw [hheader] at h
    dsimp only at h
    rcases hpayload : Bytes.readExact (Bytes.ofBe32 header).toNat tail with _ | ⟨taken, left⟩
    · rw [hpayload] at h
      cases h
    rw [hpayload] at h
    cases h
    obtain ⟨rfl, hfour⟩ := Bytes.readExact_eq_some hheader
    obtain ⟨rfl, hlength⟩ := Bytes.readExact_eq_some hpayload
    -- the header is the one that is written for the payload
    have hword : UInt32.ofNat payload.length = Bytes.ofBe32 header := by
      rw [hlength, UInt32.ofNat_toNat]
    refine ⟨hlength ▸ (Bytes.ofBe32 header).toNat_lt, ?_⟩
    rw [writeCmdFrame, hword, Bytes.toBe32_ofBe32 hfour, List.append_assoc]
  · rintro ⟨hlt, rfl⟩
    have hheader : Bytes.readExact 4 (writeCmdFrame payload ++ rest)
        = some (Bytes.toBe32 (UInt32.ofNat payload.length), payload ++ rest) := by
      rw [writeCmdFrame, List.append_assoc]
      exact Bytes.readExact_append (Bytes.toBe32 _) _
    have hlength : (UInt32.ofNat payload.length).toNat = payload.length := by
      rw [UInt32.toNat_ofNat', Nat.mod_eq_of_lt hlt]
    unfold readCmdFrame
    rw [hheader]
    dsimp only
    rw [Bytes.ofBe32_toBe32, hlength, Bytes.readExact_append]

end Flat

/-! ## Every stream -/

/-- The reader finds a frame where one was written and takes off just its bytes, finds nothing
where there is nothing, and reports everything else. -/
structure DecodesExactly (segments : List Bytes) : Prop where
  some_iff : ∀ payload, (∃ rest, readCmdFrameFrom segments = .ok (some (payload, rest))) ↔
    payload.length < 2 ^ 32 ∧ writeCmdFrame payload <+: segments.flatten
  consumed : ∀ payload rest, readCmdFrameFrom segments = .ok (some (payload, rest)) →
    segments.flatten = writeCmdFrame payload ++ rest.flatten
  none_iff : readCmdFrameFrom segments = .ok none ↔ segments.flatten = []
  error : segments.flatten ≠ [] →
    (∀ payload : Bytes, payload.length < 2 ^ 32 → ¬ writeCmdFrame payload <+: segments.flatten) →
    ∃ message, readCmdFrameFrom segments = .error message

section Segments

variable {segments : List Bytes} {payload : Bytes}

theorem readCmdFrameFrom_eq_none_iff :
    readCmdFrameFrom segments = .ok none ↔ segments.flatten.length < 4 := by
  rw [← readCmdFrame_eq_none_iff, readCmdFrame_flatten]
  rcases readCmdFrameFrom segments with message | _ | ⟨payload, rest⟩
  · exact iff_of_false (by rintro ⟨⟩) (by rintro ⟨⟩)
  · exact iff_of_true rfl rfl
  · exact iff_of_false (by rintro ⟨⟩) (by rintro ⟨⟩)

theorem flatten_of_readCmdFrameFrom {rest : List Bytes}
    (h : readCmdFrameFrom segments = .ok (some (payload, rest))) :
    payload.length < 2 ^ 32 ∧ segments.flatten = writeCmdFrame payload ++ rest.flatten := by
  rw [← readCmdFrame_eq_some_iff, readCmdFrame_flatten, h]
  rfl

theorem exists_readCmdFrameFrom_iff :
    (∃ rest, readCmdFrameFrom segments = .ok (some (payload, rest))) ↔
      payload.length < 2 ^ 32 ∧ writeCmdFrame payload <+: segments.flatten := by
  constructor
  · rintro ⟨rest, h⟩
    obtain ⟨hlt, hstream⟩ := flatten_of_readCmdFrameFrom h
    exact ⟨hlt, rest.flatten, hstream.symm⟩
  · rintro ⟨hlt, rest, hstream⟩
    have hread := readCmdFrame_eq_some_iff.mpr ⟨hlt, hstream.symm⟩
    rw [readCmdFrame_flatten] at hread
    rcases hfrom : readCmdFrameFrom segments with message | _ | ⟨taken, left⟩
    · rw [hfrom] at hread
      cases hread
    · rw [hfrom] at hread
      cases hread
    · rw [hfrom] at hread
      cases hread
      exact ⟨left, rfl⟩

end Segments

/-- **Command frames are decoded exactly, on every stream but those that end in the header.** -/
theorem readCmdFrameFrom_exact_iff (segments : List Bytes) :
    DecodesExactly segments ↔ segments.flatten = [] ∨ 4 ≤ segments.flatten.length := by
  constructor
  · intro h
    by_contra hshort
    obtain ⟨hne, hlt⟩ := not_or.mp hshort
    exact hne (h.none_iff.mp (readCmdFrameFrom_eq_none_iff.mpr (Nat.not_le.mp hlt)))
  · intro hwhole
    have hnone : readCmdFrameFrom segments = .ok none ↔ segments.flatten = [] := by
      rw [readCmdFrameFrom_eq_none_iff]
      constructor
      · exact fun hlt => hwhole.resolve_right (Nat.not_le.mpr hlt)
      · intro hnil
        rw [hnil]
        decide
    refine ⟨fun _ => exists_readCmdFrameFrom_iff,
      fun _ _ h => (flatten_of_readCmdFrameFrom h).2, hnone, fun hne hunframed => ?_⟩
    rcases hread : readCmdFrameFrom segments with message | _ | ⟨payload, rest⟩
    · exact ⟨message, rfl⟩
    · exact absurd (hnone.mp hread) hne
    · obtain ⟨hlt, hpre⟩ := exists_readCmdFrameFrom_iff.mp ⟨rest, hread⟩
      exact absurd hpre (hunframed payload hlt)

/-- Three bytes of a header, in two reads, are taken for nothing. -/
theorem readCmdFrameFrom_cut_header :
    readCmdFrameFrom [[0, 0], [0]] = .ok none ∧ [[0, 0], [0]].flatten ≠ ([] : Bytes) := by
  decide

end Passhrs
