import Procinsh.Foundation.LittleEndian

/-!
# Frames in a stream of bytes

A frame is a payload behind its length.  Whoever reads one asks for no more bytes than are missing of it,
first of the length and then of the payload, so that the bytes behind the frame stay in the stream.
-/

namespace Procinsh

/-- A payload behind its length. -/
def frame (payload : List UInt8) : List UInt8 := leBytes 4 payload.length ++ payload

/-- What the bytes read so far say about the frame. -/
inductive FrameStatus
  /-- So many bytes may be asked for. -/
  | lacks (n : ℕ)
  | invalid (size : ℕ)
  | complete (payload : List UInt8)
  deriving DecidableEq

/-- What bytes say about a frame with a payload of at most `limit` bytes. -/
def frameStatus (limit : ℕ) (got : List UInt8) : FrameStatus :=
  if got.length < 4 then .lacks (4 - got.length)
  else
    let size := leValue (got.take 4)
    if size = 0 ∨ limit < size then .invalid size
    else if got.length < 4 + size then .lacks (4 + size - got.length)
    else .complete (got.drop 4)

/-- A payload that can be sent in a frame and is accepted. -/
structure Framable (limit : ℕ) (payload : List UInt8) : Prop where
  ne_nil : payload ≠ []
  le_limit : payload.length ≤ limit
  lt_word : payload.length < 2 ^ 32

theorem frame_ne_nil (payload : List UInt8) : frame payload ≠ [] := by
  intro h
  have hlength := congrArg List.length h
  rw [frame, List.length_append, length_leBytes] at hlength
  exact absurd hlength (by simp)

/-- Bytes of a frame lack some of the rest, unless there is none. -/
theorem frameStatus_of_append {limit : ℕ} {payload got rest : List UInt8} (h : Framable limit payload)
    (hframe : got ++ rest = frame payload) :
    (rest = [] ∧ frameStatus limit got = .complete payload) ∨
      (rest ≠ [] ∧ ∃ n, 0 < n ∧ n ≤ rest.length ∧ frameStatus limit got = .lacks n) := by
  have hlength : got.length + rest.length = 4 + payload.length := by
    rw [← List.length_append, hframe, frame, List.length_append, length_leBytes]
  unfold frameStatus
  by_cases hheader : got.length < 4
  · rw [if_pos hheader]
    refine Or.inr ⟨?_, _, ?_, ?_, rfl⟩
    · rintro rfl
      rw [List.length_nil] at hlength
      omega
    · omega
    · omega
  · have htake : got.take 4 = leBytes 4 payload.length := by
      have hgot := congrArg (List.take 4) hframe
      rw [List.take_append_of_le_length (by omega), frame,
        List.take_left' (length_leBytes 4 _)] at hgot
      exact hgot
    have hsize : leValue (got.take 4) = payload.length := by
      rw [htake, leValue_leBytes_of_lt (by have := h.lt_word; omega)]
    have hpos : payload.length ≠ 0 := fun hnil => h.ne_nil (List.eq_nil_of_length_eq_zero hnil)
    have hvalid : ¬ (leValue (got.take 4) = 0 ∨ limit < leValue (got.take 4)) := by
      have := h.le_limit
      omega
    rw [if_neg hheader]
    dsimp only
    rw [if_neg hvalid, hsize]
    by_cases hbody : got.length < 4 + payload.length
    · rw [if_pos hbody]
      refine Or.inr ⟨?_, _, ?_, ?_, rfl⟩
      · rintro rfl
        rw [List.length_nil] at hlength
        omega
      · omega
      · omega
    · have hrest : rest = [] := List.eq_nil_of_length_eq_zero (by omega)
      subst hrest
      rw [List.append_nil] at hframe
      rw [if_neg hbody, hframe, frame, List.drop_left' (length_leBytes 4 _)]
      exact Or.inl ⟨rfl, rfl⟩

/-- All bytes of a frame complete it. -/
theorem frameStatus_frame {limit : ℕ} {payload : List UInt8} (h : Framable limit payload) :
    frameStatus limit (frame payload) = .complete payload := by
  rcases frameStatus_of_append h (List.append_nil (frame payload)) with ⟨-, hstatus⟩ | ⟨hne, -⟩
  · exact hstatus
  · exact absurd rfl hne

end Procinsh
