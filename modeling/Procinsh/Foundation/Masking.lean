import Mathlib.Data.List.Basic
import Mathlib.Order.Nat

/-!
# Masking the hits in a part of a text

A detector reports hits in a text as ranges of positions, sorted and apart.  A part of the text is
masked by walking over the hits that meet it: what lies between them is copied, the share of each is
hidden.  `IsMasking` says what the pieces of such a walk are, without the walk: they tile the part,
the hidden ones are the shares of the hits that meet it, and no position of a hit is copied.

A text that is joined from parts, with one element between every two of them, is masked part by part,
at the ranges `spans`.
-/

namespace Procinsh.Masking

/-! ### Ranges of positions -/

/-- A half-open range of positions. -/
structure Span where
  start : ℕ
  stop : ℕ
  deriving DecidableEq, Repr

namespace Span

/-- A position is in the range. -/
def Covers (s : Span) (i : ℕ) : Prop := s.start ≤ i ∧ i < s.stop

/-- Two ranges meet. -/
def Meets (hit part : Span) : Prop := hit.start < part.stop ∧ part.start < hit.stop

instance (hit part : Span) : Decidable (hit.Meets part) := inferInstanceAs (Decidable (_ ∧ _))

/-- The share of a hit that lies in a part. -/
def share (hit part : Span) : Span := ⟨max hit.start part.start, min hit.stop part.stop⟩

/-- What stands in a range of a text. -/
def slice {α : Type*} (s : Span) (text : List α) : List α :=
  (text.drop s.start).take (s.stop - s.start)

end Span

/-- What a detector may report in a text of a length: ranges of the text, in order and apart. -/
structure Lawful (hits : List Span) (length : ℕ) : Prop where
  ordered : ∀ hit ∈ hits, hit.start ≤ hit.stop
  inRange : ∀ hit ∈ hits, hit.stop ≤ length
  apart : hits.Pairwise fun hit later => hit.stop ≤ later.start

theorem Lawful.nil (length : ℕ) : Lawful [] length :=
  ⟨fun _ h => absurd h List.not_mem_nil, fun _ h => absurd h List.not_mem_nil, .nil⟩

/-! ### Pieces -/

/-- A piece of a masked part. -/
inductive Piece
  | copied (span : Span)
  | hidden (span : Span)
  deriving DecidableEq, Repr

namespace Piece

/-- The range of a piece. -/
def span : Piece → Span
  | copied s => s
  | hidden s => s

/-- The range of a piece that is copied. -/
def copied? : Piece → Option Span
  | copied s => some s
  | hidden _ => none

/-- The range of a piece that is hidden. -/
def hidden? : Piece → Option Span
  | copied _ => none
  | hidden s => some s

end Piece

/-- Pieces follow each other from one position to another. -/
def Tiles : ℕ → List Piece → ℕ → Prop
  | lo, [], hi => lo = hi
  | lo, p :: ps, hi => p.span.start = lo ∧ lo ≤ p.span.stop ∧ Tiles p.span.stop ps hi

/-- The pieces of a part that is masked against hits. -/
structure IsMasking (hits : List Span) (part : Span) (pieces : List Piece) : Prop where
  /-- The pieces are the part, in order. -/
  tiles : Tiles part.start pieces part.stop
  /-- The share of every hit that meets the part is hidden, as one piece, and nothing else is. -/
  hidden : pieces.filterMap Piece.hidden? =
    (hits.filter fun hit => hit.Meets part).map fun hit => hit.share part
  /-- No position of a hit is copied. -/
  uncovered : ∀ copied ∈ pieces.filterMap Piece.copied?, ∀ hit ∈ hits, ∀ i,
    copied.Covers i → ¬hit.Covers i

/-- The pieces of a part from a position on, given the hits that meet it. -/
def piecesFrom (part : Span) : ℕ → List Span → List Piece
  | done, [] => [.copied ⟨done, part.stop⟩]
  | done, hit :: hits =>
    .copied ⟨done, (hit.share part).start⟩ :: .hidden (hit.share part) ::
      piecesFrom part (hit.share part).stop hits

/-- The pieces of a part. -/
def pieces (hits : List Span) (part : Span) : List Piece :=
  piecesFrom part part.start (hits.filter fun hit => hit.Meets part)

@[simp] theorem pieces_nil (part : Span) : pieces [] part = [.copied part] := rfl

/-- The share of a hit begins behind what is done and ends in the part. -/
theorem share_bounds {hit part : Span} {done : ℕ} (hmeets : hit.Meets part)
    (hpart : part.start ≤ part.stop) (hordered : hit.start ≤ hit.stop)
    (hdone : done = part.start ∨ done ≤ hit.start) :
    done ≤ (hit.share part).start ∧ (hit.share part).start ≤ (hit.share part).stop ∧
      (hit.share part).stop ≤ part.stop := by
  unfold Span.Meets at hmeets
  unfold Span.share
  dsimp only
  omega

/-- Where the walk over the hits has come to: it has left the part's start, what is done ends in the
part, and the hits to come begin behind it. -/
structure Walk (part : Span) (done : ℕ) (hits : List Span) : Prop where
  ordered : ∀ hit ∈ hits, hit.start ≤ hit.stop
  apart : hits.Pairwise fun hit later => hit.stop ≤ later.start
  meets : ∀ hit ∈ hits, hit.Meets part
  start_le : part.start ≤ done
  le_stop : done ≤ part.stop
  behind : ∀ hit ∈ hits, done = part.start ∨ done ≤ hit.start

theorem Walk.of_lawful {hits : List Span} {length : ℕ} (h : Lawful hits length) {part : Span}
    (hpart : part.start ≤ part.stop) :
    Walk part part.start (hits.filter fun hit => hit.Meets part) where
  ordered hit hmem := h.ordered hit (List.mem_of_mem_filter hmem)
  apart := h.apart.filter _
  meets _ hmem := of_decide_eq_true (List.mem_filter.mp hmem).2
  start_le := le_rfl
  le_stop := hpart
  behind _ _ := .inl rfl

/-- The walk goes on behind the share of the next hit. -/
theorem Walk.next {part hit : Span} {done : ℕ} {hits : List Span} (h : Walk part done (hit :: hits)) :
    done ≤ (hit.share part).start ∧ (hit.share part).start ≤ (hit.share part).stop ∧
      Walk part (hit.share part).stop hits := by
  have hmem : hit ∈ hit :: hits := List.mem_cons_self
  obtain ⟨hfrom, hshare, hstop⟩ := share_bounds (h.meets hit hmem) (h.start_le.trans h.le_stop)
    (h.ordered hit hmem) (h.behind hit hmem)
  obtain ⟨hapart, hrest⟩ := List.pairwise_cons.mp h.apart
  refine ⟨hfrom, hshare, ?_⟩
  exact {
    ordered := fun later hl => h.ordered later (List.mem_cons_of_mem hit hl)
    apart := hrest
    meets := fun later hl => h.meets later (List.mem_cons_of_mem hit hl)
    start_le := h.start_le.trans (hfrom.trans hshare)
    le_stop := hstop
    behind := fun later hl => .inr ((min_le_left _ _).trans (hapart later hl)) }

theorem tiles_piecesFrom {part : Span} {done : ℕ} {hits : List Span} (h : Walk part done hits) :
    Tiles done (piecesFrom part done hits) part.stop := by
  induction hits generalizing done with
  | nil => exact ⟨rfl, h.le_stop, rfl⟩
  | cons hit hits ih =>
    obtain ⟨hfrom, hshare, hnext⟩ := h.next
    exact ⟨rfl, hfrom, rfl, hshare, ih hnext⟩

theorem hidden_piecesFrom (part : Span) (done : ℕ) (hits : List Span) :
    (piecesFrom part done hits).filterMap Piece.hidden? = hits.map fun hit => hit.share part := by
  induction hits generalizing done with
  | nil => rfl
  | cons hit hits ih =>
    have h : (piecesFrom part done (hit :: hits)).filterMap Piece.hidden? =
        hit.share part :: (piecesFrom part (hit.share part).stop hits).filterMap Piece.hidden? := rfl
    rw [h, ih, List.map_cons]

/-- What is copied lies in the part, behind what is done. -/
theorem copied_piecesFrom {part : Span} {done : ℕ} {hits : List Span} (h : Walk part done hits)
    {copied : Span} (hcopied : copied ∈ (piecesFrom part done hits).filterMap Piece.copied?) :
    done ≤ copied.start ∧ copied.stop ≤ part.stop := by
  induction hits generalizing done with
  | nil =>
    obtain rfl : copied = ⟨done, part.stop⟩ := List.mem_singleton.mp hcopied
    exact ⟨le_rfl, le_rfl⟩
  | cons hit hits ih =>
    obtain ⟨hfrom, hshare, hnext⟩ := h.next
    have hcases : copied = ⟨done, (hit.share part).start⟩ ∨
        copied ∈ (piecesFrom part (hit.share part).stop hits).filterMap Piece.copied? :=
      List.mem_cons.mp hcopied
    rcases hcases with rfl | hlater
    · exact ⟨le_rfl, hshare.trans hnext.le_stop⟩
    · obtain ⟨hstart, hstop⟩ := ih hnext hlater
      exact ⟨(hfrom.trans hshare).trans hstart, hstop⟩

/-- No position of a hit of the walk is copied. -/
theorem uncovered_piecesFrom {part : Span} {done : ℕ} {hits : List Span} (h : Walk part done hits)
    {copied : Span} (hcopied : copied ∈ (piecesFrom part done hits).filterMap Piece.copied?)
    {hit : Span} (hhit : hit ∈ hits) {i : ℕ} (hi : copied.Covers i) : ¬hit.Covers i := by
  induction hits generalizing done with
  | nil => cases hhit
  | cons first hits ih =>
    obtain ⟨hfrom, hshare, hnext⟩ := h.next
    have hcases : copied = ⟨done, (first.share part).start⟩ ∨
        copied ∈ (piecesFrom part (first.share part).stop hits).filterMap Piece.copied? :=
      List.mem_cons.mp hcopied
    have hapart := (List.pairwise_cons.mp h.apart).1
    have hordered := h.ordered first List.mem_cons_self
    have hmeets := h.meets first List.mem_cons_self
    rcases hcases with rfl | hlater
    · -- the piece in front of the first hit
      have hstart := h.start_le
      have hbehind : first.start ≤ hit.start := by
        rcases List.mem_cons.mp hhit with rfl | hhit
        · exact le_rfl
        · exact hordered.trans (hapart hit hhit)
      unfold Span.Covers Span.share Span.Meets at *
      dsimp only at hi
      omega
    · rcases List.mem_cons.mp hhit with rfl | hhit
      · -- a piece behind the first hit
        obtain ⟨hle, hstop⟩ := copied_piecesFrom hnext hlater
        unfold Span.Covers Span.share at *
        dsimp only at hle
        omega
      · exact ih hnext hlater hhit

/-- The walk masks a part. -/
theorem isMasking_pieces {hits : List Span} {length : ℕ} (h : Lawful hits length) {part : Span}
    (hpart : part.start ≤ part.stop) : IsMasking hits part (pieces hits part) := by
  have hwalk := Walk.of_lawful h hpart
  constructor
  case tiles => exact tiles_piecesFrom hwalk
  case hidden => exact hidden_piecesFrom part part.start _
  case uncovered =>
    intro copied hcopied hit hhit i hi hcovers
    obtain ⟨hlo, hhi⟩ := copied_piecesFrom hwalk hcopied
    have hmeets : hit.Meets part := by
      unfold Span.Covers at hi hcovers
      unfold Span.Meets
      omega
    exact uncovered_piecesFrom hwalk hcopied
      (List.mem_filter.mpr ⟨hhit, decide_eq_true hmeets⟩) hi hcovers

/-! ### Parts of a joined text -/

/-- The ranges of parts that follow each other with one element between every two of them. -/
def spans {α : Type*} : ℕ → List (List α) → List Span
  | _, [] => []
  | start, part :: parts =>
    ⟨start, start + part.length⟩ :: spans (start + part.length + 1) parts

@[simp] theorem length_spans {α : Type*} (start : ℕ) (parts : List (List α)) :
    (spans start parts).length = parts.length := by
  induction parts generalizing start with
  | nil => rfl
  | cons part parts ih => rw [spans, List.length_cons, ih, List.length_cons]

theorem start_le_stop_of_mem_spans {α : Type*} {start : ℕ} {parts : List (List α)} {s : Span}
    (h : s ∈ spans start parts) : s.start ≤ s.stop := by
  induction parts generalizing start with
  | nil => cases h
  | cons part parts ih =>
    rcases List.mem_cons.mp h with rfl | h
    · exact Nat.le_add_right _ _
    · exact ih h

/-- A part that stands between two texts. -/
theorem slice_append {α : Type*} (before part behind : List α) :
    (Span.mk before.length (before.length + part.length)).slice (before ++ (part ++ behind)) =
      part := by
  unfold Span.slice
  rw [List.drop_left, Nat.add_sub_cancel_left, List.take_left]

/-- The ranges of the parts of a joined text lie in it and hold the parts. -/
theorem spans_intercalate {α : Type*} (sep : α) (before : List α) (parts : List (List α)) :
    (∀ s ∈ spans before.length parts, s.stop ≤ (before ++ [sep].intercalate parts).length) ∧
      (spans before.length parts).map (fun s => s.slice (before ++ [sep].intercalate parts)) =
        parts := by
  induction parts generalizing before with
  | nil => exact ⟨fun _ h => absurd h List.not_mem_nil, rfl⟩
  | cons part parts ih =>
    cases parts with
    | nil =>
      rw [List.intercalate_singleton]
      constructor
      · intro s hs
        obtain rfl : s = ⟨before.length, before.length + part.length⟩ := List.mem_singleton.mp hs
        rw [List.length_append]
      · have hslice := slice_append before part []
        rw [List.append_nil] at hslice
        exact congrArg (· :: []) hslice
    | cons next parts =>
      have htext : before ++ [sep].intercalate (part :: next :: parts) =
          before ++ part ++ [sep] ++ [sep].intercalate (next :: parts) := by
        rw [List.intercalate_cons_cons]
        simp only [List.append_assoc]
      have hlength : before.length + part.length + 1 = (before ++ part ++ [sep]).length := by
        simp only [List.length_append, List.length_singleton]
      obtain ⟨hstops, hslices⟩ := ih (before ++ part ++ [sep])
      rw [spans, htext, hlength]
      constructor
      · intro s hs
        rcases List.mem_cons.mp hs with rfl | hs
        · simp only [List.length_append]
          omega
        · exact hstops s hs
      · have hslice := slice_append before part ([sep] ++ [sep].intercalate (next :: parts))
        simp only [← List.append_assoc] at hslice
        rw [List.map_cons, hslices, hslice]

end Procinsh.Masking
