import FieldInjection.Settings

/-!
# Identifiers of the settings

An identifier is made of ASCII characters, so what holds of all of them can be checked character by character
(`of_isIdentifierPart`).
-/

namespace FieldInjection

variable {name : String} {c : Char}

theorem isAlpha_eq (c : Char) :
    c.isAlpha = (decide (c.val ≥ 65 ∧ c.val ≤ 90) || (decide (c.val ≥ 97) && decide (c.val ≤ 122))) := rfl

theorem toNat_lt_of_isIdentifierPart (h : isIdentifierPart c = true) : c.toNat < 128 := by
  simp only [isIdentifierPart, isIdentifierStart, isAlpha_eq, Char.isDigit, Bool.or_eq_true, Bool.and_eq_true,
    decide_eq_true_eq, UInt32.le_iff_toNat_le, ge_iff_le] at h
  have hval : c.toNat = c.val.toNat := rfl
  rcases h with (((⟨-, h⟩ | ⟨-, h⟩) | rfl) | rfl) | ⟨-, h⟩
  · exact hval ▸ Nat.lt_of_le_of_lt h (by decide)
  · exact hval ▸ Nat.lt_of_le_of_lt h (by decide)
  · decide
  · decide
  · exact hval ▸ Nat.lt_of_le_of_lt h (by decide)

/-- What all characters of ASCII have that can be part of an identifier. -/
theorem of_isIdentifierPart {P : Char → Prop}
    (hall : ∀ n : Fin 128, isIdentifierPart (Char.ofNat n) = true → P (Char.ofNat n)) (h : isIdentifierPart c = true) :
    P c := by
  have hc := hall ⟨c.toNat, toNat_lt_of_isIdentifierPart h⟩
  rw [Char.ofNat_toNat] at hc
  exact hc h

theorem isIdentifierPart_of_isIdentifierStart (h : isIdentifierStart c = true) : isIdentifierPart c = true := by
  rw [isIdentifierPart, h, Bool.true_or]

theorem isIdentifierPart_of_mem (h : isIdentifier name = true) (hc : c ∈ name.toList) : isIdentifierPart c = true := by
  rw [isIdentifier] at h
  split at h
  · cases h
  · rename_i d ds hname
    obtain ⟨hstart, hparts⟩ := Bool.and_eq_true_iff.mp h
    rw [hname] at hc
    rcases List.mem_cons.mp hc with rfl | hc
    · exact isIdentifierPart_of_isIdentifierStart hstart
    · exact List.all_eq_true.mp hparts c hc

end FieldInjection
