import CommandLine.Text.CaseFold
import Mathlib.Data.String.Basic

/-! Prefixes of text without regard to case.

Case folding changes no character's size, so that comparing bytes comes to
comparing characters: a text starts with another one exactly if that holds of the
two once their letters are lower case.
-/

set_option autoImplicit false

namespace CommandLine.Text

open String (utf8Len)

theorem utf8Size_toLower (c : Char) : c.toLower.utf8Size = c.utf8Size := by
  unfold Char.toLower
  split
  next upper =>
    obtain ⟨low, high⟩ : 65 ≤ c.val.toNat ∧ c.val.toNat ≤ 90 := upper
    have below : c.val ≤ 127 := UInt32.le_iff_toNat_le.mpr (Nat.le_trans high (by decide))
    have above : c.val + 32 ≤ 127 := by
      rw [UInt32.le_iff_toNat_le, UInt32.toNat_add]
      change (c.val.toNat + 32) % 2 ^ 32 ≤ 127
      omega
    exact (if_pos above).trans (if_pos below).symm
  next => rfl

theorem utf8Len_eq_of_map_toLower {front lead : List Char}
    (same : front.map Char.toLower = lead.map Char.toLower) : utf8Len front = utf8Len lead := by
  induction front generalizing lead with
  | nil =>
    rw [List.map_eq_nil_iff.mp same.symm]
  | cons c front ih =>
    obtain ⟨d, rest, rfl, sameHead, sameRest⟩ := List.map_eq_cons_iff.mp same.symm
    have size : c.utf8Size = d.utf8Size := by
      rw [← utf8Size_toLower c, ← utf8Size_toLower d, sameHead]
    rw [String.utf8Len_cons, String.utf8Len_cons, ih sameRest.symm, size]

theorem takeBytes?_append (front rest : List Char) :
    takeBytes? (utf8Len front) (front ++ rest) = some front := by
  induction front with
  | nil => exact takeBytes?_zero rest
  | cons c front ih =>
    have positive : 0 < c.utf8Size := c.utf8Size_pos
    rw [String.utf8Len_cons, List.cons_append, takeBytes?]
    rw [if_neg (by omega), if_pos (by omega), Nat.add_sub_cancel, ih]
    rfl

theorem prefix_of_takeBytes? {size : Nat} {cs front : List Char}
    (taken : takeBytes? size cs = some front) : front <+: cs := by
  induction cs generalizing size front with
  | nil =>
    rw [takeBytes?] at taken
    split at taken
    · cases taken
      exact List.prefix_refl _
    · cases taken
  | cons c rest ih =>
    rw [takeBytes?] at taken
    split at taken
    · cases taken
      exact List.nil_prefix
    · split at taken
      · obtain ⟨more, takenRest, rfl⟩ := Option.map_eq_some_iff.mp taken
        exact List.cons_prefix_cons.mpr ⟨rfl, ih takenRest⟩
      · cases taken

/-- A text starts with `lead` exactly if, in lower case, its characters do. -/
theorem startsIgnoringCase_iff {text lead : String} :
    startsIgnoringCase text lead = true ↔
      lead.toList.map Char.toLower <+: text.toList.map Char.toLower := by
  unfold startsIgnoringCase
  constructor
  · intro starts
    split at starts
    next => cases starts
    next front taken =>
      rw [← beq_iff_eq.mp starts]
      exact (prefix_of_takeBytes? taken).map Char.toLower
  · intro starts
    obtain ⟨front, ⟨rest, split⟩, same⟩ := List.prefix_map_iff.mp starts
    have size : lead.utf8ByteSize = utf8Len front := by
      rw [← String.utf8Len_toList, utf8Len_eq_of_map_toLower same]
    rw [size, ← split, takeBytes?_append]
    exact beq_iff_eq.mpr same.symm

theorem startsIgnoringCase_of_startsWith {text lead : String}
    (starts : startsWith text lead = true) : startsIgnoringCase text lead = true :=
  startsIgnoringCase_iff.mpr ((List.isPrefixOf_iff_prefix.mp starts).map Char.toLower)

theorem startsIgnoringCase_of_same {text typed : String}
    (same : sameIgnoringCase typed text = true) : startsIgnoringCase text typed = true :=
  startsIgnoringCase_iff.mpr (beq_iff_eq.mp same ▸ List.prefix_refl _)

end CommandLine.Text
