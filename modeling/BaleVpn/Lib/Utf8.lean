/-!
# Strings as lists of bytes
-/

namespace BaleVpn.Lib

theorem fromUTF8?_toUTF8 (s : String) : String.fromUTF8? ⟨s.toUTF8.data.toList.toArray⟩ = some s := by
  unfold String.fromUTF8?
  rw [Array.toArray_toList, String.toUTF8_eq_toByteArray, dif_pos s.isValidUTF8]
  rfl

end BaleVpn.Lib
