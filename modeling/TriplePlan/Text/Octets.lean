import TriplePlan.Bytes

/-!
Octets as characters: each byte stands as the character of its number, so that a document can be
read before it is known to be a text. Main statement: the octets of a text are read back as it.
-/
namespace TriplePlan.Text

def octets (bs : Bytes) : List Char := bs.map fun b => Char.ofNat b.toNat

def octetsOf (c : Char) : List Char := octets (utf8 (String.singleton c))

def ofOctets (s : List Char) : Bytes := s.map fun c => UInt8.ofNat c.toNat

def textOfOctets? (s : List Char) : Option (List Char) := (ofUtf8? (ofOctets s)).map String.toList

theorem toNat_ofNat_byte (b : UInt8) : (Char.ofNat b.toNat).toNat = b.toNat := by
  have hb : b.toNat.isValidChar := Or.inl (Nat.lt_trans b.toNat_lt (by decide))
  rw [Char.ofNat, dif_pos hb]
  rfl

theorem ofOctets_octets (bs : Bytes) : ofOctets (octets bs) = bs := by
  induction bs with
  | nil => rfl
  | cons b r ih =>
    simp only [ofOctets, octets, List.map_cons, toNat_ofNat_byte, UInt8.ofNat_toNat] at ih ⊢
    rw [ih]

theorem textOfOctets?_octets (s : String) : textOfOctets? (octets (utf8 s)) = some s.toList := by
  simp [textOfOctets?, ofOctets_octets, ofUtf8?_utf8]

end TriplePlan.Text
