import TriplePlan.Proofs.Cbor
import TriplePlan.Proofs.OrderedMap
import TriplePlan.Store.Snapshot

/-! A saved store is loaded as it was: keys and values are read back number by number, and the map
is made again from its entries. -/
namespace TriplePlan

namespace Store

/-- Eight bytes hold the number of entries and the lengths of their keys and values, as they do of
everything that stands in memory. -/
structure WordSized (s : Store) : Prop where
  entries : s.entries.length < Cbor.wordSize
  keys : ∀ e ∈ s.entries, e.1.length < Cbor.wordSize
  values : ∀ e ∈ s.entries, e.2.length < Cbor.wordSize

theorem bytesToCbor_eq (bs : Bytes) :
    bytesToCbor bs = Cbor.array Cbor.natural (bs.map UInt8.toNat) := by
  rw [bytesToCbor, Cbor.array, Cbor.array, List.length_map, List.flatMap_map]

end Store

namespace Cbor.Reader

open Store

theorem bytes_bytesToCbor {bs : Bytes} (h : bs.length < wordSize) (rest : Bytes) :
    bytes (bytesToCbor bs ++ rest) = some (bs, rest) := by
  have hlength : (bs.map UInt8.toNat).length < wordSize := by rwa [List.length_map]
  have hread : ∀ n ∈ bs.map UInt8.toNat, ∀ rest,
      natBelow 256 (natural n ++ rest) = some (n, rest) := by
    intro n hn rest
    obtain ⟨b, -, rfl⟩ := List.mem_map.1 hn
    exact natBelow_natural b.toNat_lt (b.toNat_lt.trans (by decide)) rest
  have hhead := head_head arrayKind rfl hlength ((bs.map UInt8.toNat).flatMap natural ++ rest)
  rw [bytesToCbor_eq, array, List.append_assoc, bytes,
    bind_eq (untagged_eq hhead fun _ => Head.noConfusion)]
  dsimp only [foldItems]
  rw [bind_eq (foldTimes_items _ [] rest hread)]
  simp [pure_eq, Function.comp_def]

end Cbor.Reader

namespace Store

/-- A store is loaded from what it was saved as; bytes behind that are left over. -/
theorem load?_save (s : Store) (h : s.WordSized) (rest : Bytes) :
    load? (s.save ++ rest) = some s := by
  have hentry : ∀ e ∈ s.entries, ∀ rest, Cbor.Reader.pair Cbor.Reader.bytes Cbor.Reader.bytes
      (entryToCbor e ++ rest) = some (e, rest) := by
    intro e he rest
    rw [entryToCbor, List.append_assoc, List.append_assoc]
    exact Cbor.Reader.pair_append (Cbor.Reader.bytes_bytesToCbor (h.keys e he) _)
      (Cbor.Reader.bytes_bytesToCbor (h.values e he) rest)
  rw [load?, Cbor.read?, save, Cbor.Reader.list_array h.entries hentry, Option.map_some,
    Option.map_some, OrderedMap.ofList_entries]

def edgeStore : Store := .ofList
  [([0xff], []), ([], [0, 23, 24, 255]), (List.replicate 23 0, List.replicate 24 0x18)]

theorem load?_save_edgeStore : edgeStore.WordSized ∧
    load? (edgeStore.save ++ [0x80]) = some edgeStore := by
  have hsized : edgeStore.WordSized := ⟨by decide, by decide, by decide⟩
  exact ⟨hsized, load?_save edgeStore hsized [0x80]⟩

end Store

end TriplePlan
