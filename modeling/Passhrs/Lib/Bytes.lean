import Mathlib.Data.UInt

/-!
# Bytes on a stream

Big-endian words and tagged frames: a four-byte length, a one-byte tag, and the payload. A reader
of a stream takes exactly as many bytes as it asks for, or fails.

* **`ofBe32_toBe32`**, **`toBe32_ofBe32`**: words and their four bytes.
* **`readFrame_frame`**: so does a frame whose payload is shorter than `2 ^ 32`, and what follows
  it is left for the next read.
* **`readFrame_of_isPrefix`**: a part of such a frame is an error.
-/

abbrev Bytes : Type := List UInt8

namespace Bytes

/-- Take exactly `n` bytes off the front. -/
def readExact (n : Nat) (stream : Bytes) : Option (Bytes × Bytes) :=
  if n ≤ stream.length then some (stream.take n, stream.drop n) else none

theorem readExact_append (front rest : Bytes) :
    readExact front.length (front ++ rest) = some (front, rest) := by
  unfold readExact
  rw [if_pos (by simp), List.take_left, List.drop_left]

theorem readExact_eq_some {n : Nat} {stream front rest : Bytes}
    (h : readExact n stream = some (front, rest)) : stream = front ++ rest ∧ front.length = n := by
  unfold readExact at h
  split at h
  · next hle =>
    obtain ⟨rfl, rfl⟩ := Prod.mk.inj (Option.some.inj h)
    exact ⟨(List.take_append_drop _ _).symm, by simp [hle]⟩
  · cases h

theorem readExact_of_length_lt {n : Nat} {stream : Bytes} (h : stream.length < n) :
    readExact n stream = none := if_neg (Nat.not_le.mpr h)

/-- What is read of the front of a stream is read of the stream. -/
theorem readExact_of_isPrefix {n : Nat} {front stream taken rest : Bytes} (hpre : front <+: stream)
    (h : readExact n front = some (taken, rest)) :
    ∃ more, readExact n stream = some (taken, rest ++ more) := by
  obtain ⟨more, rfl⟩ := hpre
  obtain ⟨rfl, rfl⟩ := readExact_eq_some h
  exact ⟨more, by rw [List.append_assoc, readExact_append]⟩

/-- Take exactly `n` bytes off a stream that comes in segments, a segment at a time. -/
def readExactFrom (n : Nat) : List Bytes → Option (Bytes × List Bytes)
  | [] => if n = 0 then some ([], []) else none
  | segment :: segments =>
    if n ≤ segment.length then some (segment.take n, segment.drop n :: segments)
    else
      (readExactFrom (n - segment.length) segments).map fun (got, rest) => (segment ++ got, rest)

/-- How the stream is cut makes no difference. -/
theorem readExact_flatten (n : Nat) (segments : List Bytes) :
    readExact n segments.flatten =
      (readExactFrom n segments).map fun (got, rest) => (got, rest.flatten) := by
  induction segments generalizing n with
  | nil =>
    rw [readExactFrom, readExact]
    rcases n with _ | n
    · rfl
    · rfl
  | cons segment segments ih =>
    rw [readExactFrom, List.flatten_cons]
    split
    -- the segment has all the bytes wanted
    · next hle =>
      unfold readExact
      rw [if_pos (by rw [List.length_append]; omega), List.take_append_of_le_length hle,
        List.drop_append_of_le_length hle]
      rfl
    -- it has too few: all of it, and the rest from the later ones
    · next hlt =>
      have htake : (segment ++ segments.flatten).take n =
          segment ++ segments.flatten.take (n - segment.length) := by
        rw [List.take_append, List.take_of_length_le (by omega)]
      have hdrop : (segment ++ segments.flatten).drop n =
          segments.flatten.drop (n - segment.length) := by
        rw [List.drop_append, List.drop_of_length_le (by omega), List.nil_append]
      have hrest : readExact n (segment ++ segments.flatten) =
          (readExact (n - segment.length) segments.flatten).map fun (got, rest) =>
            (segment ++ got, rest) := by
        unfold readExact
        rw [List.length_append, htake, hdrop]
        by_cases hle : n - segment.length ≤ segments.flatten.length
        · rw [if_pos hle, if_pos (by omega)]
          rfl
        · rw [if_neg hle, if_neg (by omega)]
          rfl
      rw [hrest, ih, Option.map_map, Option.map_map]
      rfl

/-! ## Words -/

/-- The four bytes of a word, most significant first. -/
def toBe32 (n : UInt32) : Bytes :=
  [(n >>> 24).toUInt8, (n >>> 16).toUInt8, (n >>> 8).toUInt8, n.toUInt8]

/-- The word with these bytes, most significant first. -/
def ofBe32 (bytes : Bytes) : UInt32 :=
  bytes.foldl (fun n b => n * 256 + b.toUInt32) 0

@[simp] theorem length_toBe32 (n : UInt32) : (toBe32 n).length = 4 := rfl

theorem ofBe32_toBe32 (n : UInt32) : ofBe32 (toBe32 n) = n := by
  have hlt := n.toNat_lt
  rw [← UInt32.toNat_inj]
  simp [ofBe32, toBe32, UInt32.toNat_shiftRight, Nat.shiftRight_eq_div_pow]
  omega

theorem toBe32_ofBe32 {bytes : Bytes} (h : bytes.length = 4) : toBe32 (ofBe32 bytes) = bytes := by
  obtain ⟨a, b, c, d, rfl⟩ : ∃ a b c d, bytes = [a, b, c, d] := by
    rcases bytes with _ | ⟨a, _ | ⟨b, _ | ⟨c, _ | ⟨d, _ | ⟨e, rest⟩⟩⟩⟩⟩
    all_goals simp at h
    exact ⟨a, b, c, d, rfl⟩
  have ha := a.toNat_lt
  have hb := b.toNat_lt
  have hc := c.toNat_lt
  have hd := d.toNat_lt
  have hword : (ofBe32 [a, b, c, d]).toNat =
      ((a.toNat * 256 + b.toNat) * 256 + c.toNat) * 256 + d.toNat := by
    simp [ofBe32]
    omega
  simp only [toBe32, List.cons.injEq, and_true, ← UInt8.toNat_inj, UInt32.toNat_toUInt8,
    UInt32.toNat_shiftRight, Nat.shiftRight_eq_div_pow, hword]
  refine ⟨?_, ?_, ?_, ?_⟩
  · simp
    omega
  · simp
    omega
  · simp
    omega
  · omega

/-! ## Frames -/

/-- A frame: the payload's length, the tag, the payload. -/
def frame (tag : UInt8) (payload : Bytes) : Bytes :=
  toBe32 (UInt32.ofNat payload.length) ++ [tag] ++ payload

/-- Where a stream can end too early. -/
inductive FrameError where
  | header
  | payload
deriving DecidableEq

/-- Take one frame off the front: its tag, its payload, and the rest of the stream. -/
def readFrame (stream : Bytes) : Except FrameError (UInt8 × Bytes × Bytes) :=
  match readExact 5 stream with
  | none => .error .header
  | some (header, stream) =>
    match readExact (ofBe32 (header.take 4)).toNat stream with
    | none => .error .payload
    | some (payload, rest) => .ok (header.getD 4 0, payload, rest)

theorem readFrame_frame (tag : UInt8) {payload : Bytes} (h : payload.length < 2 ^ 32)
    (rest : Bytes) : readFrame (frame tag payload ++ rest) = .ok (tag, payload, rest) := by
  set n := UInt32.ofNat payload.length with hn
  have hlength : (ofBe32 ((toBe32 n ++ [tag]).take 4)).toNat = payload.length := by
    rw [List.take_left' (length_toBe32 n), ofBe32_toBe32, hn, UInt32.toNat_ofNat',
      Nat.mod_eq_of_lt h]
  have hheader : readExact 5 (frame tag payload ++ rest)
      = some (toBe32 n ++ [tag], payload ++ rest) := by
    rw [frame, List.append_assoc]
    exact readExact_append (toBe32 n ++ [tag]) (payload ++ rest)
  unfold readFrame
  rw [hheader]
  dsimp only
  rw [hlength, readExact_append]
  rfl

/-- A frame that is cut short is not read. -/
theorem readFrame_of_isPrefix {tag : UInt8} {payload front : Bytes} (h : payload.length < 2 ^ 32)
    (hpre : front <+: frame tag payload) (hne : front ≠ frame tag payload) :
    ∃ e, readFrame front = .error e := by
  set n := UInt32.ofNat payload.length with hn
  unfold readFrame
  by_cases hheader : front.length < 5
  · rw [readExact_of_length_lt hheader]
    exact ⟨_, rfl⟩
  -- the header is whole, so it is the payload that is cut
  obtain ⟨part, rfl⟩ : toBe32 n ++ [tag] <+: front :=
    List.prefix_of_prefix_length_le (List.prefix_append _ payload) hpre (Nat.not_lt.mp hheader)
  have hpart : part <+: payload := (List.prefix_append_right_inj _).mp hpre
  have hlt : part.length < payload.length := by
    refine lt_of_le_of_ne hpart.length_le fun hlen => hne ?_
    rw [hpart.eq_of_length hlen]
    rfl
  have hlength : (ofBe32 ((toBe32 n ++ [tag]).take 4)).toNat = payload.length := by
    rw [List.take_left' (length_toBe32 n), ofBe32_toBe32, hn, UInt32.toNat_ofNat',
      Nat.mod_eq_of_lt h]
  rw [show (5 : Nat) = (toBe32 n ++ [tag]).length from rfl, readExact_append]
  dsimp only
  rw [hlength, readExact_of_length_lt hlt]
  exact ⟨_, rfl⟩

/-- A frame that is read takes its header with it. -/
theorem length_lt_of_readFrame {stream payload rest : Bytes} {tag : UInt8}
    (h : readFrame stream = .ok (tag, payload, rest)) : rest.length < stream.length := by
  unfold readFrame at h
  split at h
  · cases h
  · next header stream' hheader =>
    obtain ⟨rfl, hlen⟩ := readExact_eq_some hheader
    split at h
    · cases h
    · next payload' rest' hpayload =>
      obtain ⟨rfl, -⟩ := readExact_eq_some hpayload
      cases h
      simp only [List.length_append]
      omega

end Bytes
