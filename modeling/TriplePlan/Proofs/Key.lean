import TriplePlan.Key.Table
import TriplePlan.Proofs.Cbor
import TriplePlan.Proofs.Except
import Mathlib.Data.Set.Subsingleton

/-! The byte form of a node is read back whatever follows it, and nothing but such forms is read. So
no form is a prefix of another, and the key of a table entry says which entry it is. -/
namespace TriplePlan.Key

theorem unescape_escape (pos : Nat) (bs rest : Bytes) :
    unescape pos (escape bs ++ rest) = .ok (bs, pos + (escape bs).length, rest) := by
  induction bs generalizing pos with
  | nil => simp [escape, unescape]
  | cons b r ih =>
    by_cases hb : b = 0x00
    · simp [escape, unescape, hb, ih, Except.map]
      omega
    · obtain ⟨c, tail, hc⟩ : ∃ c tail, escape r ++ rest = c :: tail := by
        cases hr : escape r ++ rest with
        | nil => cases r <;> simp [escape] at hr; split at hr <;> simp at hr
        | cons c tail => exact ⟨c, tail, rfl⟩
      have := ih (pos + 1)
      rw [hc] at this
      rw [escape, if_neg hb, List.cons_append, hc, unescape, if_neg hb, this]
      simp [Except.map]
      omega

theorem decodeText_encodeText (pos : Nat) (s : String) (rest : Bytes) :
    decodeText pos (encodeText s ++ rest) = .ok (s, pos + (encodeText s).length, rest) := by
  simp only [decodeText, encodeText, unescape_escape, bind, Except.bind, Text.ofUtf8?_utf8]
  rfl

theorem decodeAnnotations_encodeAnnotations (pos : Nat) (datatype language : Option String)
    (rest : Bytes) :
    decodeAnnotations pos (encodeAnnotations datatype language ++ rest) =
      .ok ((datatype, language), rest) := by
  cases datatype <;> cases language <;>
    simp [encodeAnnotations, decodeAnnotations, decodeText_encodeText, bind, Except.bind, pure,
      Except.pure]

theorem decodeNode_encodeNode (x : Node) (rest : Bytes) :
    decodeNode (encodeNode x ++ rest) = .ok (x, rest) := by
  cases x with
  | iri text =>
    simp [encodeNode, decodeNode, decodeText_encodeText, bind, Except.bind, pure, Except.pure]
  | literal value datatype language =>
    simp [encodeNode, decodeNode, iriTag, literalTag, decodeText_encodeText,
      decodeAnnotations_encodeAnnotations, bind, Except.bind, pure, Except.pure]

theorem encodeNode_append_inj {x y : Node} {r s : Bytes}
    (h : encodeNode x ++ r = encodeNode y ++ s) :
    x = y ∧ r = s := by
  have hx := decodeNode_encodeNode x r
  rw [h, decodeNode_encodeNode] at hx
  cases hx
  exact ⟨rfl, rfl⟩

theorem encodeNode_injective {x y : Node} (h : encodeNode x = encodeNode y) : x = y :=
  (encodeNode_append_inj (r := []) (s := []) (by rw [h])).1

/-- Equally many nodes in a row are told apart, whatever follows them. -/
theorem flatMap_encodeNode_inj {xs ys : List Node} (hl : xs.length = ys.length) {r s : Bytes}
    (h : xs.flatMap encodeNode ++ r = ys.flatMap encodeNode ++ s) : xs = ys ∧ r = s := by
  induction xs generalizing ys with
  | nil =>
    obtain rfl := List.length_eq_zero_iff.1 hl.symm
    exact ⟨rfl, h⟩
  | cons x xs ih =>
    cases ys with
    | nil => cases hl
    | cons y ys =>
      simp only [List.flatMap_cons, List.append_assoc] at h
      obtain ⟨rfl, hrest⟩ := encodeNode_append_inj h
      obtain ⟨rfl, rfl⟩ := ih (Nat.succ.inj hl) hrest
      exact ⟨rfl, rfl⟩

theorem eq_escape_of_unescape {pos : Nat} {bs raw rest : Bytes} {next : Nat}
    (h : unescape pos bs = .ok (raw, next, rest)) : bs = escape raw ++ rest := by
  fun_induction unescape pos bs generalizing raw next with
  | case1 => cases h
  | case2 => cases h
  | case3 => cases h; rfl
  | case4 pos r hne ih =>
    obtain ⟨⟨raw', next', rest'⟩, hr, heq⟩ := map_eq_ok_iff.1 h
    cases heq
    simp [escape, ← ih hr]
  | case5 => cases h
  | case6 pos b c r hb ih =>
    obtain ⟨⟨raw', next', rest'⟩, hr, heq⟩ := map_eq_ok_iff.1 h
    cases heq
    simp [escape, hb, ← ih hr]

theorem eq_encodeText_of_decodeText {pos : Nat} {bs rest : Bytes} {s : String} {next : Nat}
    (h : decodeText pos bs = .ok (s, next, rest)) : bs = encodeText s ++ rest := by
  obtain ⟨⟨raw, next', rest'⟩, hraw, htext⟩ := bind_eq_ok_iff.1 h
  dsimp only at htext
  cases hs : Text.ofUtf8? raw with
  | none =>
    rw [hs] at htext
    cases htext
  | some s' =>
    rw [hs] at htext
    cases htext
    rw [encodeText, ← Text.utf8_of_ofUtf8? hs]
    exact eq_escape_of_unescape hraw

theorem eq_encodeAnnotations_of_decodeAnnotations {pos : Nat} {bs rest : Bytes}
    {datatype language : Option String}
    (h : decodeAnnotations pos bs = .ok ((datatype, language), rest)) :
    bs = encodeAnnotations datatype language ++ rest := by
  cases bs with
  | nil => cases h
  | cons tag bs =>
    simp only [decodeAnnotations] at h
    by_cases h0 : tag = 0x00
    · rw [if_pos h0] at h
      cases h
      rw [h0]
      rfl
    rw [if_neg h0] at h
    by_cases h1 : tag = 0x01
    · rw [if_pos h1] at h
      obtain ⟨x, hx, heq⟩ := bind_eq_ok_iff.1 h
      cases heq
      rw [h1, eq_encodeText_of_decodeText hx]
      rfl
    rw [if_neg h1] at h
    by_cases h2 : tag = 0x02
    · rw [if_pos h2] at h
      obtain ⟨x, hx, heq⟩ := bind_eq_ok_iff.1 h
      cases heq
      rw [h2, eq_encodeText_of_decodeText hx]
      rfl
    rw [if_neg h2] at h
    by_cases h3 : tag = 0x03
    · rw [if_pos h3] at h
      obtain ⟨x, hx, hrest⟩ := bind_eq_ok_iff.1 h
      obtain ⟨y, hy, heq⟩ := bind_eq_ok_iff.1 hrest
      cases heq
      rw [h3, eq_encodeText_of_decodeText hx, eq_encodeText_of_decodeText hy]
      simp [encodeAnnotations]
    · rw [if_neg h3] at h
      cases h

theorem eq_encodeNode_of_decodeNode {bs rest : Bytes} {x : Node}
    (h : decodeNode bs = .ok (x, rest)) : bs = encodeNode x ++ rest := by
  cases bs with
  | nil => cases h
  | cons tag bs =>
    simp only [decodeNode] at h
    by_cases hiri : tag = iriTag
    · rw [if_pos hiri] at h
      obtain ⟨text, htext, heq⟩ := bind_eq_ok_iff.1 h
      cases heq
      rw [hiri, eq_encodeText_of_decodeText htext]
      rfl
    rw [if_neg hiri] at h
    by_cases hliteral : tag = literalTag
    · rw [if_pos hliteral] at h
      obtain ⟨value, hvalue, hrest⟩ := bind_eq_ok_iff.1 h
      obtain ⟨⟨⟨datatype, language⟩, rest'⟩, hannotations, heq⟩ := bind_eq_ok_iff.1 hrest
      cases heq
      rw [hliteral, eq_encodeText_of_decodeText hvalue,
        eq_encodeAnnotations_of_decodeAnnotations hannotations]
      simp [encodeNode]
    · rw [if_neg hliteral] at h
      cases h

/-- Reading accepts the byte forms of nodes and nothing else, whatever follows them; so every form
is read back, and no byte string starts with two of them. -/
theorem node_codec_bijective (b : Bytes) (x : Node) (r : Bytes) :
    (decodeNode b = .ok (x, r) ↔ b = encodeNode x ++ r) ∧
      decodeNode (encodeNode x) = .ok (x, []) ∧
      {p : Node × Bytes | b = encodeNode p.1 ++ p.2}.Subsingleton := by
  refine ⟨⟨eq_encodeNode_of_decodeNode, ?_⟩, ?_, ?_⟩
  · intro h
    rw [h, decodeNode_encodeNode]
  · have hback := decodeNode_encodeNode x []
    rwa [List.append_nil] at hback
  · intro p hp q hq
    obtain ⟨hnode, hrest⟩ := encodeNode_append_inj (hp.symm.trans hq)
    exact Prod.ext hnode hrest

def tables : List Nat := [valueTable, minorTable, majorTable]

theorem tableTag_inj {a b : Nat} (ha : a ∈ tables) (hb : b ∈ tables) {p q : Position}
    (h : tableTag a p = tableTag b q) : a = b ∧ p = q := by
  simp only [tables, List.mem_cons, List.not_mem_nil, or_false] at ha hb
  revert h
  rcases ha with rfl | rfl | rfl <;> rcases hb with rfl | rfl | rfl <;> cases p <;>
    cases q <;> decide

theorem valuePrefix_append_inj {u v : Position} {m n m' n' : Node} {r s : Bytes}
    (h : valuePrefix u m n ++ r = valuePrefix v m' n' ++ s) :
    (u = v ∧ m = m' ∧ n = n') ∧ r = s := by
  simp only [valuePrefix, List.cons_append, List.append_assoc, List.cons.injEq] at h
  obtain ⟨htag, hnodes⟩ := h
  obtain ⟨hm, hn⟩ := encodeNode_append_inj hnodes
  obtain ⟨hn, hrest⟩ := encodeNode_append_inj hn
  have hmem : valueTable ∈ tables := by simp [tables]
  exact ⟨⟨(tableTag_inj hmem hmem htag).2, hm, hn⟩, hrest⟩

/-- An entry of one of the three tables, by what its key holds. -/
inductive Entry where
  | value (unknown : Position) (m n u : Node)
  | minor (unknown : Position) (m n : Node)
  | major (position : Position) (constant : Node)
deriving DecidableEq

namespace Entry

def key : Entry → Bytes
  | value u m n x => valueKey u m n x
  | minor u m n => minorKey u m n
  | major q c => majorKey q c

def table : Entry → Nat
  | value .. => valueTable
  | minor .. => minorTable
  | major .. => majorTable

def position : Entry → Position
  | value u .. => u
  | minor u .. => u
  | major q _ => q

def nodes : Entry → List Node
  | value _ m n x => [m, n, x]
  | minor _ m n => [m, n]
  | major _ c => [c]

theorem key_eq (e : Entry) : e.key = tableTag e.table e.position :: e.nodes.flatMap encodeNode := by
  cases e <;> simp [key, table, position, nodes, valueKey, valuePrefix, minorKey, majorKey]

theorem table_mem (e : Entry) : e.table ∈ tables := by
  cases e <;> simp [table, tables]

theorem nodes_length {e f : Entry} (h : e.table = f.table) : e.nodes.length = f.nodes.length := by
  cases e <;> cases f <;> first | rfl | simp [table, valueTable, minorTable, majorTable] at h

theorem eq_of_nodes {e f : Entry} (ht : e.table = f.table) (hp : e.position = f.position)
    (hn : e.nodes = f.nodes) : e = f := by
  cases e <;> cases f <;> simp_all [table, valueTable, minorTable, majorTable, position, nodes]

theorem table_eq_of_valuePrefix {u : Position} {m n : Node} {r : Bytes} {e : Entry}
    (h : valuePrefix u m n ++ r = e.key) : e.table = valueTable := by
  rw [key_eq, valuePrefix, List.cons_append, List.cons.injEq] at h
  exact (tableTag_inj (table_mem e) (by simp [tables]) h.1.symm).1

theorem key_append_inj {e f : Entry} {r s : Bytes} (h : e.key ++ r = f.key ++ s) :
    e = f ∧ r = s := by
  simp only [key_eq, List.cons_append, List.cons.injEq] at h
  obtain ⟨ht, hp⟩ := tableTag_inj (table_mem e) (table_mem f) h.1
  obtain ⟨hn, hr⟩ := flatMap_encodeNode_inj (nodes_length ht) h.2
  exact ⟨eq_of_nodes ht hp hn, hr⟩

theorem key_injective {e f : Entry} (h : e.key = f.key) : e = f :=
  (key_append_inj (r := []) (s := []) (by rw [h])).1

/-- A key starts with another one only if both belong to the same entry. -/
theorem key_prefix_iff {e f : Entry} : e.key <+: f.key ↔ e = f := by
  constructor
  · intro h
    obtain ⟨r, hr⟩ := h
    rw [← List.append_nil f.key] at hr
    exact (key_append_inj hr).1
  · intro h
    subst h
    exact List.prefix_rfl

/-- Under a value prefix stand the value entries of its pair, and no others. -/
theorem valuePrefix_prefix_iff {u : Position} {m n : Node} {e : Entry} :
    valuePrefix u m n <+: e.key ↔ ∃ x, e = .value u m n x := by
  constructor
  · intro h
    obtain ⟨r, hr⟩ := h
    have htable := table_eq_of_valuePrefix hr
    cases e with
    | value v m' n' x =>
      obtain ⟨⟨rfl, rfl, rfl⟩, -⟩ := valuePrefix_append_inj hr
      exact ⟨x, rfl⟩
    | minor v m' n' => cases htable
    | major q c => cases htable
  · intro h
    obtain ⟨x, rfl⟩ := h
    exact List.prefix_append _ _

end Entry

/-- Over the entries of all three tables, whatever texts their nodes have. -/
theorem keys_unambiguous (e f : Entry) (u : Position) (m n : Node) :
    (e.key <+: f.key ↔ e = f) ∧ (valuePrefix u m n <+: e.key ↔ ∃ x, e = .value u m n x) :=
  ⟨Entry.key_prefix_iff, Entry.valuePrefix_prefix_iff⟩

theorem encodeCount_eq (n : Nat) : encodeCount n = Cbor.bigEndian 8 n := by
  simp [encodeCount, Cbor.bigEndian]

theorem decodeCount?_encodeCount {n : Nat} (h : n < 2 ^ 64) :
    decodeCount? (encodeCount n) = some n := by
  rw [decodeCount?, encodeCount_eq, if_pos (Cbor.Reader.bigEndian_length 8 n), Cbor.foldl_bigEndian]
  rw [Nat.zero_mul, Nat.zero_add, Nat.mod_eq_of_lt (by omega)]

/-- A counter is read of the bytes that are written for it, and of no others. -/
theorem decodeCount?_eq_some_iff {bs : Bytes} {n : Nat} :
    decodeCount? bs = some n ↔ n < Cbor.wordSize ∧ bs = encodeCount n := by
  constructor
  · intro h
    rw [decodeCount?] at h
    split at h
    · rename_i hlength
      obtain rfl := Option.some.inj h
      refine ⟨?_, ?_⟩
      · have hzero := Cbor.foldl_div 0 bs
        rw [hlength] at hzero
        simp only [Cbor.wordSize, UInt64.size]
        omega
      · rw [encodeCount_eq, ← hlength]
        exact (Cbor.bigEndian_foldl 0 bs).symm
    · cases h
  · rintro ⟨hn, rfl⟩
    exact decodeCount?_encodeCount hn

end TriplePlan.Key
