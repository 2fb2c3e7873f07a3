import Mathlib.Data.List.Lex
import Mathlib.Data.String.Basic

/-!
# Strings as code units

A string in UTF-16: characters of the basic plane are one code unit, other characters two, the first
of which is a high surrogate.  No character is a surrogate, so that the code units determine the
string, and comparing strings by their code units is a linear order.
-/

namespace Procinsh

/-- The code units of a character. -/
def codeUnits (c : Char) : List ℕ :=
  if c.toNat < 0x10000 then [c.toNat]
  else [0xD800 + (c.toNat - 0x10000) / 0x400, 0xDC00 + (c.toNat - 0x10000) % 0x400]

/-- The code units of a string. -/
def utf16 (s : String) : List ℕ := s.toList.flatMap codeUnits

theorem codeUnits_append_inj {c d : Char} {l m : List ℕ}
    (h : codeUnits c ++ l = codeUnits d ++ m) : c = d ∧ l = m := by
  have hc : c.toNat < 0xD800 ∨ 0xDFFF < c.toNat ∧ c.toNat < 0x110000 := c.valid
  have hd : d.toNat < 0xD800 ∨ 0xDFFF < d.toNat ∧ d.toNat < 0x110000 := d.valid
  unfold codeUnits at h
  split at h <;> split at h
  · exact ⟨Char.toNat_inj.mp (List.cons.inj h).1, (List.cons.inj h).2⟩
  · have hunit := (List.cons.inj h).1
    omega
  · have hunit := (List.cons.inj h).1
    omega
  · obtain ⟨hhigh, htail⟩ := List.cons.inj h
    obtain ⟨hlow, hrest⟩ := List.cons.inj htail
    exact ⟨Char.toNat_inj.mp (by omega), hrest⟩

theorem codeUnits_ne_nil (c : Char) : codeUnits c ≠ [] := by
  unfold codeUnits
  split <;> simp

/-- The code units determine the string. -/
theorem utf16_inj {s t : String} : utf16 s = utf16 t ↔ s = t := by
  have hlists : ∀ l m : List Char, l.flatMap codeUnits = m.flatMap codeUnits → l = m := by
    intro l
    induction l with
    | nil =>
      intro m h
      cases m with
      | nil => rfl
      | cons d m =>
        rw [List.flatMap_nil, List.flatMap_cons] at h
        exact absurd (List.append_eq_nil_iff.mp h.symm).1 (codeUnits_ne_nil d)
    | cons c l ih =>
      intro m h
      cases m with
      | nil =>
        rw [List.flatMap_nil, List.flatMap_cons] at h
        exact absurd (List.append_eq_nil_iff.mp h).1 (codeUnits_ne_nil c)
      | cons d m =>
        rw [List.flatMap_cons, List.flatMap_cons] at h
        obtain ⟨rfl, htail⟩ := codeUnits_append_inj h
        rw [ih m htail]
  constructor
  · intro h
    exact String.toList_inj.mp (hlists _ _ h)
  · rintro rfl
    rfl

end Procinsh
