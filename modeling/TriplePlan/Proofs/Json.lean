import TriplePlan.Json.Reader

/-! Reading back JSON as it is written: a text is found again behind its escapes, and so is every
value that is made of texts, arrays and records. -/
namespace TriplePlan.Json

theorem hexValue?_hexDigit {n : Nat} (h : n < 16) : Text.hexValue? (Bytes.hexDigit n) = some n := by
  revert n
  decide

theorem hexNumber?_byte {n : Nat} (h : n < 256) :
    Text.hexNumber? ['0', '0', Bytes.hexDigit (n / 16), Bytes.hexDigit (n % 16)] = some n := by
  have hzero : Text.hexValue? '0' = some 0 := by decide
  have hhigh := hexValue?_hexDigit (n := n / 16) (by omega)
  have hlow := hexValue?_hexDigit (n := n % 16) (by omega)
  simp [Text.hexNumber?, hzero, hhigh, hlow]
  omega

theorem units_short {e c : Char} (he : unescape? e = some c) (r : List Char) :
    units ('\\' :: e :: r) = (units r).map fun x => (c.toNat :: x.1, x.2) := by
  rw [units]
  · rw [he]
    cases units r <;> rfl
  · intro a b c' d r' h
    cases h
    cases he

theorem units_long {n : Nat} (h : n < 256) (r : List Char) :
    units ('\\' :: 'u' :: '0' :: '0' :: Bytes.hexDigit (n / 16) :: Bytes.hexDigit (n % 16) :: r) =
      (units r).map fun x => (n :: x.1, x.2) := by
  rw [units, hexNumber?_byte h]
  cases units r <;> rfl

theorem units_plain {c : Char} (hquote : c ≠ '"') (hbackslash : c ≠ '\\') (hc : ¬ c.toNat < 0x20)
    (r : List Char) : units (c :: r) = (units r).map fun x => (c.toNat :: x.1, x.2) := by
  rw [units]
  · rw [if_neg hc]
    cases units r <;> rfl
  all_goals simp [hquote, hbackslash]

theorem units_escapeChar (c : Char) (r : List Char) :
    units (escapeChar c ++ r) = (units r).map fun x => (c.toNat :: x.1, x.2) := by
  unfold escapeChar
  split
  case h_8 hquote hbackslash _ _ _ _ _ =>
    split
    · rename_i hc
      exact units_long (by omega) r
    · rename_i hc
      exact units_plain hquote hbackslash hc r
  all_goals exact units_short rfl r

theorem units_flatMap (l r : List Char) :
    units (l.flatMap escapeChar ++ '"' :: r) = some (l.map Char.toNat, r) := by
  induction l with
  | nil => rw [List.flatMap_nil, List.nil_append, units, List.map_nil]
  | cons c l ih =>
    rw [List.flatMap_cons, List.append_assoc, units_escapeChar, ih]
    rfl

theorem isHigh_toNat (c : Char) : isHigh c.toNat = false := by
  have hvalid : c.toNat.isValidChar := c.valid
  simp only [Nat.isValidChar] at hvalid
  simp only [isHigh, Bool.and_eq_false_iff, decide_eq_false_iff_not]
  omega

theorem isLow_toNat (c : Char) : isLow c.toNat = false := by
  have hvalid : c.toNat.isValidChar := c.valid
  simp only [Nat.isValidChar] at hvalid
  simp only [isLow, Bool.and_eq_false_iff, decide_eq_false_iff_not]
  omega

theorem joinUnits_toNat (l : List Char) : joinUnits (l.map Char.toNat) = some l := by
  induction l with
  | nil => rfl
  | cons c l ih => cases l with
    | nil => simp [joinUnits, isHigh_toNat, isLow_toNat]
    | cons d l =>
      rw [List.map_cons] at ih
      simp [joinUnits, isHigh_toNat, isLow_toNat, ih]

theorem content?_escaped (s : String) (r : List Char) :
    content? (s.toList.flatMap escapeChar ++ '"' :: r) = some (some s, r) := by
  rw [content?, units_flatMap, Option.map_some]
  dsimp only
  rw [joinUnits_toNat, Option.map_some, String.ofList_toList]

theorem skipBlank_cons {c : Char} (h : isBlank c = false) (r : List Char) :
    skipBlank (c :: r) = c :: r := by
  simp [skipBlank, h]

structure ReadBack (v : Value) : Prop where
  front : ∃ c t, compact v = c :: t ∧ isBlank c = false ∧ c ≠ ']'
  value : ∀ fuel rest, (compact v).length ≤ fuel →
    value? fuel (compact v ++ rest) = some (v, rest)

theorem readBack_null : ReadBack .null := by
  refine ⟨⟨'n', _, rfl, rfl, by decide⟩, fun fuel rest hfuel => ?_⟩
  cases fuel with
  | zero => cases hfuel
  | succ fuel => rfl

theorem readBack_text (s : String) : ReadBack (.text s) := by
  refine ⟨⟨'"', _, rfl, rfl, by decide⟩, fun fuel rest hfuel => ?_⟩
  cases fuel with
  | zero => cases hfuel
  | succ fuel =>
    have hcontent := content?_escaped s rest
    have hwritten : compact (.text s) ++ rest =
        '"' :: (s.toList.flatMap escapeChar ++ '"' :: rest) := by
      simp [Value.text, compact, string]
    rw [hwritten, value?, skipBlank_cons (by decide)]
    simp only [hcontent]
    rfl

theorem separated_singleton (x : List Char) : separated [x] = x := by
  simp [separated]

theorem separated_cons_cons (x y : List Char) (r : List (List Char)) :
    separated (x :: y :: r) = x ++ ',' :: separated (y :: r) := by
  simp [separated]

theorem separated_cons_front (c : Char) (t : List Char) (r : List (List Char)) :
    ∃ t', separated ((c :: t) :: r) = c :: t' := by
  cases r with
  | nil => exact ⟨t, separated_singleton _⟩
  | cons y r => exact ⟨_, separated_cons_cons _ y r⟩

section

variable {fuel : Nat} {s s' r : List Char} {v : Value}

theorem elements?_last (hv : value? fuel s = some (v, ']' :: r)) :
    elements? (fuel + 1) s = some ([v], r) := by
  rw [elements?, hv]
  rfl

theorem elements?_more (hv : value? fuel s = some (v, ',' :: s')) {l : List Value}
    (hl : elements? fuel s' = some (l, r)) : elements? (fuel + 1) s = some (v :: l, r) := by
  rw [elements?, hv]
  simp only [Option.bind_eq_bind, Option.bind_some,
    skipBlank_cons (by decide : isBlank ',' = false), hl]
  rfl

end

theorem elements?_separated {l : List Value} (hne : l ≠ []) (h : ∀ v ∈ l, ReadBack v) (fuel : Nat)
    (rest : List Char) (hfuel : (separated (compactAll l)).length < fuel) :
    elements? fuel (separated (compactAll l) ++ ']' :: rest) = some (l, rest) := by
  induction l generalizing fuel with
  | nil => exact absurd rfl hne
  | cons v l ih =>
    have hv := (h v List.mem_cons_self).value
    cases fuel with
    | zero => cases hfuel
    | succ fuel => cases l with
      | nil =>
        simp only [compactAll, separated_singleton] at hfuel ⊢
        exact elements?_last (hv _ _ (by omega))
      | cons w l =>
        have hl := ih (by simp) (fun x hx => h x (List.mem_cons_of_mem _ hx)) fuel
        simp only [compactAll, separated_cons_cons, List.length_append,
          List.length_cons] at hfuel hl
        simp only [compactAll, separated_cons_cons, List.append_assoc, List.cons_append]
        exact elements?_more (hv _ _ (by omega)) (hl (by omega))

theorem value?_elements {c : Char} (hblank : isBlank c = false) (hclose : c ≠ ']') (fuel : Nat)
    (r : List Char) : value? (fuel + 1) ('[' :: c :: r) =
      (elements? fuel (c :: r)).map fun x => (.array x.1, x.2) := by
  rw [value?, skipBlank_cons (by decide)]
  simp only [skipBlank_cons hblank]
  split
  · rename_i heq
    exact absurd (List.cons.inj heq).1 hclose
  · rfl

theorem readBack_array {l : List Value} (h : ∀ v ∈ l, ReadBack v) : ReadBack (.array l) := by
  refine ⟨⟨'[', _, by rw [compact], rfl, by decide⟩, fun fuel rest hfuel => ?_⟩
  simp only [compact, List.length_cons, List.length_append, List.length_nil] at hfuel
  simp only [compact, List.cons_append, List.append_assoc, List.nil_append]
  cases fuel with
  | zero => cases hfuel
  | succ fuel => cases l with
    | nil => rfl
    | cons v l =>
      have hread := elements?_separated (by simp) h fuel rest (by omega)
      -- The first element does not close the array.
      obtain ⟨c, t, hfront, hblank, hclose⟩ := (h v List.mem_cons_self).front
      obtain ⟨t', hstart⟩ := separated_cons_front c t (compactAll l)
      rw [compactAll, hfront, hstart, List.cons_append] at hread ⊢
      rw [value?_elements hblank hclose, hread]
      rfl

section

variable {fuel : Nat} {s s' r : List Char} {v : Value}

theorem string_append (k : String) (r : List Char) :
    string (some k) ++ r = '"' :: (k.toList.flatMap escapeChar ++ '"' :: r) := by
  simp [string]

theorem members?_last (k : String) (hv : value? fuel s = some (v, '\x7d' :: r)) :
    members? (fuel + 1) (string (some k) ++ ':' :: s) = some ([(some k, v)], r) := by
  rw [string_append, members?, skipBlank_cons (by decide)]
  simp only [content?_escaped, Option.bind_eq_bind, Option.bind_some,
    skipBlank_cons (by decide : isBlank ':' = false), hv]
  rfl

theorem members?_more (k : String) (hv : value? fuel s = some (v, ',' :: s'))
    {l : List (Content × Value)} (hl : members? fuel s' = some (l, r)) :
    members? (fuel + 1) (string (some k) ++ ':' :: s) = some ((some k, v) :: l, r) := by
  rw [string_append, members?, skipBlank_cons (by decide)]
  simp only [content?_escaped, Option.bind_eq_bind, Option.bind_some,
    skipBlank_cons (by decide : isBlank ':' = false),
    skipBlank_cons (by decide : isBlank ',' = false), hv, hl]
  rfl

end

def named (l : List (String × Value)) : List (Content × Value) := l.map fun m => (some m.1, m.2)

theorem members?_separated {l : List (String × Value)} (hne : l ≠ []) (h : ∀ m ∈ l, ReadBack m.2)
    (fuel : Nat) (rest : List Char)
    (hfuel : (separated (compactMembers (named l))).length < fuel) :
    members? fuel (separated (compactMembers (named l)) ++ '\x7d' :: rest) =
      some (named l, rest) := by
  induction l generalizing fuel with
  | nil => exact absurd rfl hne
  | cons m l ih =>
    have hv := (h m List.mem_cons_self).value
    cases fuel with
    | zero => cases hfuel
    | succ fuel => cases l with
      | nil =>
        simp only [named, List.map_cons, List.map_nil, compactMembers, separated_singleton,
          List.length_append, List.length_cons] at hfuel ⊢
        rw [List.append_assoc, List.cons_append]
        exact members?_last m.1 (hv _ _ (by omega))
      | cons w l =>
        have hl := ih (by simp) (fun x hx => h x (List.mem_cons_of_mem _ hx)) fuel
        simp only [named, List.map_cons, compactMembers, separated_cons_cons, List.length_append,
          List.length_cons] at hfuel hl
        simp only [named, List.map_cons, compactMembers, separated_cons_cons, List.append_assoc,
          List.cons_append] at hl ⊢
        exact members?_more m.1 (hv _ _ (by omega)) (hl (by omega))

theorem value?_members (fuel : Nat) (r : List Char) : value? (fuel + 1) ('\x7b' :: '"' :: r) =
    (members? fuel ('"' :: r)).map fun x => (.object x.1, x.2) := by
  rw [value?, skipBlank_cons (by decide)]
  simp only [skipBlank_cons (by decide : isBlank '"' = false)]
  rfl

theorem readBack_record {l : List (String × Value)} (h : ∀ m ∈ l, ReadBack m.2) :
    ReadBack (.record l) := by
  have hwritten : compact (.record l) =
      '\x7b' :: (separated (compactMembers (named l)) ++ ['\x7d']) := by
    rw [Value.record, compact, named]
  refine ⟨⟨'\x7b', _, hwritten, rfl, by decide⟩, fun fuel rest hfuel => ?_⟩
  rw [hwritten] at hfuel ⊢
  simp only [List.length_cons, List.length_append, List.length_nil] at hfuel
  simp only [List.cons_append, List.append_assoc, List.nil_append]
  cases fuel with
  | zero => cases hfuel
  | succ fuel => cases l with
    | nil => rfl
    | cons m l =>
      have hread := members?_separated (by simp) h fuel rest (by omega)
      obtain ⟨t, hstart⟩ := separated_cons_front '"'
        (m.1.toList.flatMap escapeChar ++ '"' :: ':' :: compact m.2) (compactMembers (named l))
      have hfront : compactMembers (named (m :: l)) =
          (string (some m.1) ++ ':' :: compact m.2) :: compactMembers (named l) := rfl
      rw [hfront, string_append, hstart, List.cons_append] at hread ⊢
      rw [value?_members, hread]
      rfl

theorem parse?_render {v : Value} (h : ReadBack v) : Value.parse? v.render = some v := by
  have hread := h.value (2 * (compact v).length + 2) [] (by omega)
  rw [List.append_nil] at hread
  simp only [Value.parse?, Value.render, String.toList_ofList, hread, Option.bind_eq_bind,
    Option.bind_some]
  rfl

end TriplePlan.Json
