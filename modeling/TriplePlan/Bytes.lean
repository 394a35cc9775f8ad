/-!
Byte strings and the bytes of a text. Texts are ordered by their UTF-8 bytes everywhere.
-/
namespace TriplePlan

abbrev Bytes := List UInt8

namespace Bytes

def hexDigit (n : Nat) : Char :=
  if n < 10 then Char.ofNat (n + 48) else Char.ofNat (n + 87)

def hexByte (b : UInt8) : List Char := [hexDigit (b.toNat / 16), hexDigit (b.toNat % 16)]

def hex (bs : Bytes) : String := String.ofList (bs.flatMap hexByte)

end Bytes

namespace Text

def utf8 (s : String) : Bytes := s.toUTF8.data.toList

def ofUtf8? (bs : Bytes) : Option String := String.fromUTF8? ⟨bs.toArray⟩

theorem ofUtf8?_utf8 (s : String) : ofUtf8? (utf8 s) = some s := by
  have h : s.toByteArray.IsValidUTF8 := s.isValidUTF8
  simp [ofUtf8?, utf8, String.fromUTF8?, h, String.fromUTF8]

theorem utf8_of_ofUtf8? {bs : Bytes} {s : String} (h : ofUtf8? bs = some s) : bs = utf8 s := by
  simp only [ofUtf8?, String.fromUTF8?] at h
  split at h
  · cases h; simp [utf8, String.fromUTF8]
  · cases h

theorem utf8_injective {s t : String} (h : utf8 s = utf8 t) : s = t := by
  have := ofUtf8?_utf8 s
  rw [h, ofUtf8?_utf8] at this
  exact (Option.some.inj this).symm

def cmp (s t : String) : Ordering := compare (utf8 s) (utf8 t)

instance : Std.TransCmp cmp where
  eq_swap {_ _} := @Std.OrientedCmp.eq_swap Bytes compare _ _ _
  isLE_trans {_ _ _} h k := @Std.TransCmp.isLE_trans Bytes compare _ _ _ _ h k

instance : Std.LawfulEqCmp cmp where
  eq_of_compare {_ _} h := utf8_injective (@Std.LawfulEqCmp.eq_of_compare Bytes compare _ _ _ h)

end Text

end TriplePlan
