import TriplePlan.Proofs.Json
import TriplePlan.Proofs.Source
import TriplePlan.Term.Record

/-! Terms are read back from their JSON and CBOR records, with absent annotations told from empty
ones. -/
namespace TriplePlan

namespace Json

theorem readBack_option (t : Option String) : ReadBack (.option .text t) := by
  cases t with
  | none => exact readBack_null
  | some t => exact readBack_text t

theorem readBack_variant (name : String) {content : Value} (h : ReadBack content) :
    ReadBack (.variant name content) :=
  readBack_record (by simpa using h)

end Json

namespace Node

theorem readBack_toJson (n : Node) : Json.ReadBack n.toJson := by
  cases n with
  | iri text => exact Json.readBack_variant _ (Json.readBack_text text)
  | literal value datatype language =>
    apply Json.readBack_variant
    apply Json.readBack_record
    simp [Json.readBack_text, Json.readBack_option]

theorem ofJson?_toJson (n : Node) : ofJson? n.toJson = some n := by
  cases n with
  | iri text => rfl
  | literal value datatype language =>
    have hliteral : literalOfJson? (.record [("value", .text value),
        ("datatype", .option .text datatype), ("language", .option .text language)]) =
          some (.literal value datatype language) := by
      cases datatype <;> cases language <;> rfl
    exact hliteral

end Node

namespace Term

theorem readBack_toJson (t : Term) : Json.ReadBack t.toJson := by
  cases t with
  | var v => exact Json.readBack_variant _ (Json.readBack_text v.label)
  | node n => exact Json.readBack_variant _ n.readBack_toJson

theorem ofJson?_toJson (t : Term) : ofJson? t.toJson = some t := by
  cases t with
  | var v => rfl
  | node n =>
    have hvariant : ofJson? (.variant "Node" n.toJson) =
        (Node.ofJson? n.toJson).bind fun n => some (.node n) := rfl
    rw [toJson, hvariant, n.ofJson?_toJson]
    rfl

end Term

def Node.texts : Node → List String
  | .iri text => [text]
  | .literal value datatype language => value :: (datatype.toList ++ language.toList)

def Term.texts : Term → List String
  | .var v => [v.label]
  | .node n => n.texts

namespace Cbor

/-- Eight bytes hold the length of every text. -/
def WordSized (texts : List String) : Prop := ∀ t ∈ texts, (Text.utf8 t).length < wordSize

instance (texts : List String) : Decidable (WordSized texts) :=
  inferInstanceAs (Decidable (∀ t ∈ texts, (Text.utf8 t).length < wordSize))

end Cbor

namespace Cbor.Reader

theorem variant_map {kind : String} (hkind : (Text.utf8 kind).length ≤ nameLimit)
    (content rest : Bytes) :
    variant (Cbor.map [(kind, content)] ++ rest) = some (Text.utf8 kind, content ++ rest) := by
  have hhead := head_head mapKind (n := 1) rfl (by decide) (Cbor.text kind ++ (content ++ rest))
  have hwritten : Cbor.map [(kind, content)] ++ rest =
      Cbor.head mapKind 1 ++ (Cbor.text kind ++ (content ++ rest)) := by
    simp [Cbor.map]
  have hget : ∀ bs : Bytes, (get : Reader Bytes) bs = some (bs, bs) := fun _ => rfl
  rw [hwritten, variant, bind_eq (hget _), bind_eq (tags_eq hhead (fun _ => Head.noConfusion) _),
    bind_eq (hget _), bind_eq hhead]
  exact name_text hkind _

theorem option_null {α : Type} (read : Reader α) (rest : Bytes) :
    option read (null ++ rest) = some (none, rest) := by
  have hfirst : nat 1 (null ++ rest) = some (0xf6, rest) := nat_bigEndian 1 0xf6 rest (by decide)
  have hhead : head (null ++ rest) = some (.simple 22, rest) := by
    rw [head, bind_eq hfirst]
    rfl
  rw [option, hhead]
  rfl

theorem option_text {s : String} (h : (Text.utf8 s).length < wordSize) (rest : Bytes) :
    option text (Cbor.text s ++ rest) = some (some s, rest) := by
  have hhead : head (Cbor.text s ++ rest) =
      some (.text (some (Text.utf8 s).length), Text.utf8 s ++ rest) := by
    rw [Cbor.text, List.append_assoc]
    exact head_head textKind rfl h _
  rw [option, hhead]
  exact map_eq (text_text h rest)

theorem option_textOrNull {t : Option String} (h : WordSized t.toList) (rest : Bytes) :
    option text ((t.map Cbor.text).getD null ++ rest) = some (t, rest) := by
  cases t with
  | none => exact option_null text rest
  | some s => exact option_text (h s List.mem_cons_self) rest

theorem literal_toCbor {value : String} {datatype language : Option String}
    (h : WordSized (Node.literal value datatype language).texts) (room : Nat) (rest : Bytes) :
    literal room (Cbor.map [("value", Cbor.text value),
        ("datatype", (datatype.map Cbor.text).getD null),
        ("language", (language.map Cbor.text).getD null)] ++ rest) =
      some (.literal value datatype language, rest) := by
  have hvalue := h value List.mem_cons_self
  have hdatatype : WordSized datatype.toList := fun t ht => h t (by simp_all [Node.texts])
  have hlanguage : WordSized language.toList := fun t ht => h t (by simp_all [Node.texts])
  have hvalueField : ∀ rest, literalField room {} (Text.utf8 "value") (Cbor.text value ++ rest) =
      some ({ value := some value }, rest) := by
    intro rest
    rw [literalField, if_pos rfl, bind_eq (once_none (text_text hvalue rest))]
    rfl
  have hdatatypeField : ∀ rest, literalField room { value := some value } (Text.utf8 "datatype")
      ((datatype.map Cbor.text).getD null ++ rest) =
      some ({ value := some value, datatype := some datatype }, rest) := by
    intro rest
    rw [literalField, if_neg (utf8_ne (by decide)), if_pos rfl,
      bind_eq (once_none (option_textOrNull hdatatype rest))]
    rfl
  have hlanguageField : ∀ rest, literalField room { value := some value, datatype := some datatype }
      (Text.utf8 "language") ((language.map Cbor.text).getD null ++ rest) =
      some ({ value := some value, datatype := some datatype, language := some language },
        rest) := by
    intro rest
    rw [literalField, if_neg (utf8_ne (by decide)), if_neg (utf8_ne (by decide)), if_pos rfl,
      bind_eq (once_none (option_textOrNull hlanguage rest))]
    rfl
  have hfields : ReadsFields (literalField room) {}
      [("value", Cbor.text value), ("datatype", (datatype.map Cbor.text).getD null),
        ("language", (language.map Cbor.text).getD null)]
      { value := some value, datatype := some datatype, language := some language } :=
    .cons (by decide) hvalueField (.cons (by decide) hdatatypeField
      (.cons (by decide) hlanguageField (.nil _)))
  rw [Cbor.map, List.append_assoc, literal,
    bind_eq (head_head mapKind rfl (by simp [wordSize, UInt64.size]) _)]
  exact bind_eq (hfields.entriesOf rest)

theorem node_toCbor {n : Node} (h : WordSized n.texts) (room : Nat) (rest : Bytes) :
    node room (n.toCbor ++ rest) = some (n, rest) := by
  cases n with
  | iri t =>
    rw [Node.toCbor, node, bind_eq (variant_map (by decide) _ rest), if_pos rfl,
      bind_eq (text_text (h _ List.mem_cons_self) rest)]
    rfl
  | literal value datatype language =>
    rw [Node.toCbor, node, bind_eq (variant_map (by decide) _ rest),
      if_neg (utf8_ne (by decide)), if_pos rfl]
    exact literal_toCbor h (room - 1) rest

theorem term_toCbor {t : Term} (h : WordSized t.texts) (room : Nat) (rest : Bytes) :
    term room (t.toCbor ++ rest) = some (t, rest) := by
  cases t with
  | var v =>
    rw [Term.toCbor, term, bind_eq (variant_map (by decide) _ rest), if_pos rfl,
      bind_eq (text_text (h _ List.mem_cons_self) rest)]
    rfl
  | node n =>
    rw [Term.toCbor, term, bind_eq (variant_map (by decide) _ rest),
      if_neg (utf8_ne (by decide)), if_pos rfl, bind_eq (node_toCbor h (room - 1) rest)]
    rfl

end Cbor.Reader

end TriplePlan
