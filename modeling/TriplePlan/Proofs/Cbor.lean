import TriplePlan.Cbor.Reader
import Mathlib.Tactic.Ring

/-! Reading back what is written: heads, numbers and texts, arrays and the entries of a map. A
count is read back if it fits into the eight bytes of the longest head. -/
namespace TriplePlan.Cbor

/-- Eight bytes hold the lengths and counts that are written. -/
def wordSize : Nat := UInt64.size

theorem foldl_bigEndian (a n x : Nat) :
    (bigEndian n x).foldl (fun n b => n * 256 + b.toNat) a = a * 256 ^ n + x % 256 ^ n := by
  induction n generalizing a with
  | zero => simp [bigEndian, Nat.mod_one]
  | succ n ih =>
    have hshift : x >>> (8 * n) = x / 256 ^ n := by
      rw [Nat.shiftRight_eq_div_pow, Nat.pow_mul]
    have hmod : x % 256 ^ (n + 1) = x % 256 ^ n + 256 ^ n * (x / 256 ^ n % 256) := Nat.mod_pow_succ
    rw [bigEndian, List.foldl_cons, ih, UInt8.toNat_ofNat', hshift, hmod]
    ring

theorem foldl_div (a : Nat) (bs : Bytes) :
    bs.foldl (fun n b => n * 256 + b.toNat) a / 256 ^ bs.length = a := by
  induction bs generalizing a with
  | nil => simp
  | cons b bs ih =>
    have hb := b.toNat_lt
    rw [List.foldl_cons, List.length_cons, Nat.pow_succ, ← Nat.div_div_eq_div_mul, ih]
    omega

theorem bigEndian_foldl (a : Nat) (bs : Bytes) :
    bigEndian bs.length (bs.foldl (fun n b => n * 256 + b.toNat) a) = bs := by
  induction bs generalizing a with
  | nil => rfl
  | cons b bs ih =>
    have hfirst : bs.foldl (fun n b => n * 256 + b.toNat) (a * 256 + b.toNat) >>> (8 * bs.length) =
        a * 256 + b.toNat := by
      rw [Nat.shiftRight_eq_div_pow, Nat.pow_mul]
      exact foldl_div _ bs
    have hbyte : UInt8.ofNat (a * 256 + b.toNat) = b := by
      apply UInt8.toNat_inj.1
      have hb := b.toNat_lt
      rw [UInt8.toNat_ofNat']
      omega
    rw [List.length_cons, bigEndian, List.foldl_cons, hfirst, hbyte, ih]

namespace Reader

theorem natOf_bigEndian (n x : Nat) : natOf (bigEndian n x) = x % 256 ^ n := by
  simpa [natOf] using foldl_bigEndian 0 n x

theorem bigEndian_length (n x : Nat) : (bigEndian n x).length = n := by
  induction n with
  | zero => rfl
  | succ n ih => simp [bigEndian, ih]

variable {α β σ : Type}

theorem bind_eq {read : Reader α} {f : α → Reader β} {bs rest : Bytes} {a : α}
    (h : read bs = some (a, rest)) : (read >>= f) bs = f a rest := by
  simp [Bind.bind, StateT.bind, h]

theorem map_eq {read : Reader α} {f : α → β} {bs rest : Bytes} {a : α}
    (h : read bs = some (a, rest)) : (f <$> read) bs = some (f a, rest) := by
  simp [Functor.map, StateT.map, h, Bind.bind, Pure.pure]

theorem pure_eq (a : α) (bs : Bytes) : (pure a : Reader α) bs = some (a, bs) := rfl

theorem take_append {n : Nat} (bs rest : Bytes) (h : bs.length = n) :
    take n (bs ++ rest) = some (bs, rest) := by
  subst h
  simp [take]

theorem nat_bigEndian (n x : Nat) (rest : Bytes) (h : x < 256 ^ n) :
    nat n (bigEndian n x ++ rest) = some (x, rest) := by
  have := map_eq (f := natOf) (take_append (bigEndian n x) rest (bigEndian_length n x))
  rwa [natOf_bigEndian, Nat.mod_eq_of_lt h] at this

theorem exists_low (kind : Nat) {n : Nat} (h : n < wordSize) (rest : Bytes) :
    ∃ low tail, low < 28 ∧ Cbor.head kind n = UInt8.ofNat (kind * 32 + low) :: tail ∧
      count low (tail ++ rest) = some (some n, rest) := by
  unfold Cbor.head
  dsimp only
  split
  · rename_i h24
    exact ⟨n, [], by omega, rfl, by simp [count, h24, pure_eq]⟩
  split
  · exact ⟨24, _, by omega, rfl, map_eq (nat_bigEndian 1 n rest (by omega))⟩
  split
  · exact ⟨25, _, by omega, rfl, map_eq (nat_bigEndian 2 n rest (by omega))⟩
  split
  · exact ⟨26, _, by omega, rfl, map_eq (nat_bigEndian 4 n rest (by omega))⟩
  · exact ⟨27, _, by omega, rfl, map_eq (nat_bigEndian 8 n rest (by unfold wordSize at h; omega))⟩

def announced : Nat → Nat → Option Head
  | 0, n => some (.unsigned n)
  | 3, n => some (.text (some n))
  | 4, n => some (.array (some n))
  | 5, n => some (.map (some n))
  | _, _ => none

theorem head_head (kind : Nat) {n : Nat} {h : Head} (hk : announced kind n = some h)
    (hn : n < wordSize)
    (rest : Bytes) : head (Cbor.head kind n ++ rest) = some (h, rest) := by
  obtain ⟨low, tail, hlow, hhead, hcount⟩ := exists_low kind hn rest
  have hkind : kind = 0 ∨ kind = 3 ∨ kind = 4 ∨ kind = 5 := by
    unfold announced at hk
    split at hk <;> simp_all
  have hfirst : nat 1 (UInt8.ofNat (kind * 32 + low) :: (tail ++ rest)) =
      some (kind * 32 + low, tail ++ rest) := by
    have := nat_bigEndian 1 (kind * 32 + low) (tail ++ rest) (by omega)
    simpa [bigEndian] using this
  have hdiv : (kind * 32 + low) / 32 = kind := by omega
  have hmod : (kind * 32 + low) % 32 = low := by omega
  rw [hhead, List.cons_append, head, bind_eq hfirst, hmod, bind_eq hcount, hdiv]
  rcases hkind with rfl | rfl | rfl | rfl <;> (cases hk; rfl)

theorem tags_eq {bs rest : Bytes} {h : Head} (hh : head bs = some (h, rest)) (ht : ∀ n, h ≠ .tag n)
    (fuel : Nat) : tags fuel bs = some ((), bs) := by
  cases fuel with
  | zero => rfl
  | succ fuel =>
    simp only [tags, hh]
    split
    · rename_i heq
      cases heq
      exact absurd rfl (ht _)
    · rfl

theorem untagged_eq {bs rest : Bytes} {h : Head} (hh : head bs = some (h, rest))
    (ht : ∀ n, h ≠ .tag n) : untagged bs = some (h, rest) := by
  rw [untagged, bind_eq (tags_eq hh ht _), hh]

theorem natBelow_natural {bound n : Nat} (hb : n < bound) (hn : n < wordSize) (rest : Bytes) :
    natBelow bound (natural n ++ rest) = some (n, rest) := by
  have hread : unsigned ((natural n ++ rest).length + 1) (natural n ++ rest) = some (n, rest) := by
    exact bind_eq (head_head unsignedKind rfl hn rest)
  simp only [natBelow, hread, bind, Option.bind, hb, if_true]

theorem checked_utf8 (s : String) (rest : Bytes) : checked (Text.utf8 s) rest = some (s, rest) := by
  simp [checked, Text.ofUtf8?_utf8]

theorem untagged_text {s : String} (h : (Text.utf8 s).length < wordSize) (rest : Bytes) :
    untagged (Cbor.text s ++ rest) = some
      (.text (some (Text.utf8 s).length), Text.utf8 s ++ rest) := by
  rw [Cbor.text, List.append_assoc]
  exact untagged_eq (head_head textKind rfl h _) (fun _ => Head.noConfusion)

theorem text_text {s : String} (h : (Text.utf8 s).length < wordSize) (rest : Bytes) :
    text (Cbor.text s ++ rest) = some (s, rest) := by
  have hpart : partsOf textLength? (some (Text.utf8 s).length) (Text.utf8 s ++ rest) =
      some ([Text.utf8 s], rest) := by
    rw [partsOf, bind_eq (take_append _ rest rfl)]
    rfl
  have hall : ([Text.utf8 s].mapM checked : Reader (List String)) rest = some ([s], rest) := by
    rw [List.mapM_cons, bind_eq (checked_utf8 s rest)]
    rfl
  rw [text, bind_eq (untagged_text h rest)]
  dsimp only
  rw [textBody, bind_eq hpart, bind_eq hall]
  simp [pure_eq, String.join]

theorem name_text {s : String} (h : (Text.utf8 s).length ≤ nameLimit) (rest : Bytes) :
    name (Cbor.text s ++ rest) = some (Text.utf8 s, rest) := by
  have hlimit : nameLimit < wordSize := by decide
  have hword : (Text.utf8 s).length < wordSize := h.trans_lt hlimit
  rw [name, bind_eq (untagged_text hword rest)]
  dsimp only
  rw [if_pos h, bind_eq (take_append _ rest rfl), bind_eq (checked_utf8 s rest)]
  rfl

theorem foldTimes_flatMap {step : σ → Reader σ} {f : σ → β → σ} {item : β → Bytes} (l : List β)
    (x : σ) (rest : Bytes)
    (h : ∀ b ∈ l, ∀ x rest, step x (item b ++ rest) = some (f x b, rest)) :
    foldTimes step l.length x (l.flatMap item ++ rest) = some (l.foldl f x, rest) := by
  induction l generalizing x with
  | nil => rfl
  | cons b l ih =>
    rw [List.length_cons, foldTimes, List.flatMap_cons, List.append_assoc,
      bind_eq (h b List.mem_cons_self _ _), ih _ fun c hc => h c (List.mem_cons_of_mem _ hc)]
    rfl

theorem foldTimes_items {read : Reader α} {item : α → Bytes} (l acc : List α) (rest : Bytes)
    (h : ∀ a ∈ l, ∀ rest, read (item a ++ rest) = some (a, rest)) :
    foldTimes (fun l => return (← read) :: l) l.length acc (l.flatMap item ++ rest) =
      some (l.reverse ++ acc, rest) := by
  have hstep : ∀ a ∈ l, ∀ acc rest, (do return (← read) :: acc : Reader (List α))
      (item a ++ rest) = some (a :: acc, rest) := by
    intro a ha acc rest
    rw [bind_eq (h a ha rest)]
    rfl
  rw [foldTimes_flatMap l acc rest hstep, List.foldl_flip_cons_eq_append, List.map_id']

theorem list_array {read : Reader α} {item : α → Bytes} {l : List α} (hl : l.length < wordSize)
    (h : ∀ a ∈ l, ∀ rest, read (item a ++ rest) = some (a, rest)) (rest : Bytes) :
    list read (array item l ++ rest) = some (l, rest) := by
  have hhead := head_head arrayKind rfl hl (l.flatMap item ++ rest)
  rw [array, List.append_assoc, list, bind_eq (untagged_eq hhead fun _ => Head.noConfusion)]
  dsimp only [foldItems]
  rw [bind_eq (foldTimes_items l [] rest h)]
  simp [pure_eq]

theorem pair_append {first : Reader α} {second : Reader β} {a : α} {b : β} {x y rest : Bytes}
    (hfirst : first (x ++ (y ++ rest)) = some (a, y ++ rest))
    (hsecond : second (y ++ rest) = some (b, rest)) :
    pair first second (Cbor.head arrayKind 2 ++ (x ++ (y ++ rest))) = some ((a, b), rest) := by
  have hhead := head_head (n := 2) arrayKind rfl (by decide) (x ++ (y ++ rest))
  have hpresent : ∀ place < 2, ∀ bs, present place (some 2) bs = some (true, bs) := by
    intro place hplace bs
    simp [present, hplace, pure_eq]
  rw [pair, bind_eq (untagged_eq hhead fun _ => Head.noConfusion)]
  dsimp only
  rw [bind_eq (hpresent 0 (by decide) _)]
  change (first >>= _) _ = _
  rw [bind_eq hfirst, bind_eq (hpresent 1 (by decide) _)]
  change (second >>= _) _ = _
  rw [bind_eq hsecond]
  rfl

theorem entries_foldl {read : Reader β} {item : β → Bytes} {f : σ → String → β → σ}
    {l : List (String × β)} (hl : l.length < wordSize)
    (hkeys : ∀ e ∈ l, (Text.utf8 e.1).length < wordSize)
    (h : ∀ e ∈ l, ∀ rest, read (item e.2 ++ rest) = some (e.2, rest)) (x : σ) (rest : Bytes) :
    entries text (fun x key => return f x key (← read)) x
        (Cbor.map (l.map fun e => (e.1, item e.2)) ++ rest) =
      some (l.foldl (fun x e => f x e.1 e.2) x, rest) := by
  have hlength : (l.map fun e => (e.1, item e.2)).length < wordSize := by rwa [List.length_map]
  rw [Cbor.map, List.append_assoc, entries,
    bind_eq (untagged_eq (head_head mapKind rfl hlength _) fun _ => Head.noConfusion),
    List.length_map, List.flatMap_map]
  refine foldTimes_flatMap l x rest fun e he x rest => ?_
  rw [List.append_assoc]
  exact (bind_eq (text_text (hkeys e he) _)).trans (bind_eq (h e he rest))

/-- The fields of a record are read one after the other, each by the step for its name. -/
inductive ReadsFields (step : σ → Bytes → Reader σ) : σ → List (String × Bytes) → σ → Prop
  | nil (x : σ) : ReadsFields step x [] x
  | cons {x y z : σ} {key : String} {value : Bytes} {l : List (String × Bytes)}
      (hkey : (Text.utf8 key).length ≤ nameLimit)
      (hfield : ∀ rest, step x (Text.utf8 key) (value ++ rest) = some (y, rest))
      (hrest : ReadsFields step y l z) : ReadsFields step x ((key, value) :: l) z

namespace ReadsFields

variable {step : σ → Bytes → Reader σ} {x y : σ} {l : List (String × Bytes)}

theorem entriesOf (h : ReadsFields step x l y) (rest : Bytes) :
    entriesOf name step (some l.length) x ((l.flatMap fun e => Cbor.text e.1 ++ e.2) ++ rest) =
      some (y, rest) := by
  induction h with
  | nil => rfl
  | cons hkey hfield _ ih =>
    rw [List.flatMap_cons, List.append_assoc, List.append_assoc]
    exact (bind_eq ((bind_eq (name_text hkey _)).trans (hfield _))).trans ih

theorem entries (h : ReadsFields step x l y) (hl : l.length < wordSize) (rest : Bytes) :
    entries name step x (Cbor.map l ++ rest) = some (y, rest) := by
  rw [Cbor.map, List.append_assoc, Reader.entries,
    bind_eq (untagged_eq (head_head mapKind rfl hl _) fun _ => Head.noConfusion)]
  exact h.entriesOf rest

end ReadsFields

end Reader

end TriplePlan.Cbor
