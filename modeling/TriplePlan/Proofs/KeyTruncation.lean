import TriplePlan.Proofs.Key

/-! Reading a node from a byte string that may go on. A node that was read stays, and so does an
error, except that the bytes ran out: this is found at their very end. So of every cut of a byte
form it is said that the bytes ran out, and where. -/
namespace TriplePlan.Key

/-- What an error says of a byte string that ends at offset `stop`, if `later` is the answer once it
goes on: the bytes ran out just there, or the error stays whatever follows. -/
inductive Failure {α : Type} (stop : Nat) (later : Bytes → Except KeyError α) : KeyError → Prop
  | cut : Failure stop later (.truncated stop)
  | final {e : KeyError} (hne : ∀ k, e ≠ .truncated k) (hlater : ∀ r, later r = .error e) :
    Failure stop later e

section

variable {α β : Type} {stop pos : Nat} {bs : Bytes} {e : KeyError}

theorem Failure.imp {later : Bytes → Except KeyError α} {later' : Bytes → Except KeyError β}
    (h : Failure stop later e) (hlater : ∀ r, later r = .error e → later' r = .error e) :
    Failure stop later' e := by
  cases h with
  | cut => exact .cut
  | final hne hstays => exact .final hne fun r => hlater r (hstays r)

theorem unescape_append {raw rest : Bytes} {next : Nat}
    (h : unescape pos bs = .ok (raw, next, rest)) :
    next + rest.length = pos + bs.length ∧
      ∀ r, unescape pos (bs ++ r) = .ok (raw, next, rest ++ r) := by
  obtain rfl := eq_escape_of_unescape h
  rw [unescape_escape] at h
  obtain rfl : pos + (escape raw).length = next := congrArg (·.2.1) (Except.ok.inj h)
  refine ⟨by rw [List.length_append, Nat.add_assoc], fun r => ?_⟩
  rw [List.append_assoc, unescape_escape]

theorem unescape_failure (h : unescape pos bs = .error e) :
    Failure (pos + bs.length) (fun r => unescape pos (bs ++ r)) e := by
  fun_induction unescape pos bs with
  | case1 => cases h; exact .cut
  | case2 => cases h; exact .cut
  | case3 => cases h
  | case4 pos r hmark ih =>
    have hrest := ih (map_eq_error_iff.1 h)
    have hstop : pos + 2 + r.length = pos + (0x00 :: 0xff :: r).length := by
      simp only [List.length_cons]
      omega
    rw [hstop] at hrest
    refine hrest.imp fun s hs => ?_
    simp [unescape, hs, Except.map]
  | case5 pos c r hend hmark =>
    cases h
    exact .final (by simp) fun s => by simp [unescape, hend, hmark]
  | case6 pos b c r hb ih =>
    have hrest := ih (map_eq_error_iff.1 h)
    have hstop : pos + 1 + (c :: r).length = pos + (b :: c :: r).length := by
      simp only [List.length_cons]
      omega
    rw [hstop] at hrest
    refine hrest.imp fun s hs => ?_
    rw [List.cons_append] at hs
    simp [unescape, hb, hs, Except.map]

theorem decodeText_append {s : String} {next : Nat} {rest : Bytes}
    (h : decodeText pos bs = .ok (s, next, rest)) :
    next + rest.length = pos + bs.length ∧
      ∀ r, decodeText pos (bs ++ r) = .ok (s, next, rest ++ r) := by
  obtain rfl := eq_encodeText_of_decodeText h
  rw [decodeText_encodeText] at h
  obtain rfl : pos + (encodeText s).length = next := congrArg (·.2.1) (Except.ok.inj h)
  refine ⟨by rw [List.length_append, Nat.add_assoc], fun r => ?_⟩
  rw [List.append_assoc, decodeText_encodeText]

theorem decodeText_failure (h : decodeText pos bs = .error e) :
    Failure (pos + bs.length) (fun r => decodeText pos (bs ++ r)) e := by
  obtain hraw | ⟨⟨raw, next, rest⟩, hraw, htext⟩ := bind_eq_error_iff.1 h
  · refine (unescape_failure hraw).imp fun r hr => ?_
    rw [decodeText, hr]
    rfl
  · dsimp only at htext
    cases hs : Text.ofUtf8? raw with
    | some s =>
      rw [hs] at htext
      cases htext
    | none =>
      rw [hs] at htext
      cases htext
      refine .final (by simp) fun r => ?_
      simp [decodeText, (unescape_append hraw).2 r, hs, bind, Except.bind, throw, throwThe,
        MonadExceptOf.throw]

theorem Failure.text {f : String × Nat × Bytes → Except KeyError α}
    (h : decodeText pos bs >>= f = .error e)
    (hf : ∀ s next rest, f (s, next, rest) = .error e →
      Failure (next + rest.length) (fun r => f (s, next, rest ++ r)) e) :
    Failure (pos + bs.length) (fun r => decodeText pos (bs ++ r) >>= f) e := by
  obtain htext | ⟨⟨s, next, rest⟩, htext, hrest⟩ := bind_eq_error_iff.1 h
  · refine (decodeText_failure htext).imp fun r hr => ?_
    rw [hr]
    rfl
  · obtain ⟨hstop, hlater⟩ := decodeText_append htext
    rw [← hstop]
    refine (hf s next rest hrest).imp fun r hr => ?_
    rw [hlater]
    exact hr

theorem decodeAnnotations_failure (h : decodeAnnotations pos bs = .error e) :
    Failure (pos + bs.length) (fun r => decodeAnnotations pos (bs ++ r)) e := by
  cases bs with
  | nil => cases h; exact .cut
  | cons tag bs =>
    have hstop : pos + 1 + bs.length = pos + (tag :: bs).length := by
      rw [List.length_cons]
      omega
    simp only [List.cons_append, decodeAnnotations] at h ⊢
    by_cases h0 : tag = 0x00
    · rw [if_pos h0] at h
      cases h
    simp only [if_neg h0] at h ⊢
    by_cases h1 : tag = 0x01
    · simp only [if_pos h1] at h ⊢
      rw [← hstop]
      exact Failure.text h fun _ _ _ hread => by cases hread
    simp only [if_neg h1] at h ⊢
    by_cases h2 : tag = 0x02
    · simp only [if_pos h2] at h ⊢
      rw [← hstop]
      exact Failure.text h fun _ _ _ hread => by cases hread
    simp only [if_neg h2] at h ⊢
    by_cases h3 : tag = 0x03
    · simp only [if_pos h3] at h ⊢
      rw [← hstop]
      exact Failure.text h fun language next rest hrest =>
        Failure.text hrest fun _ _ _ hread => by cases hread
    · simp only [if_neg h3] at h ⊢
      cases h
      exact .final (by simp) fun _ => rfl

theorem decodeNode_failure (h : decodeNode bs = .error e) :
    Failure bs.length (fun r => decodeNode (bs ++ r)) e := by
  cases bs with
  | nil => cases h; exact .cut
  | cons tag bs =>
    have hstop : 1 + bs.length = (tag :: bs).length := Nat.add_comm ..
    simp only [List.cons_append, decodeNode] at h ⊢
    by_cases hiri : tag = iriTag
    · simp only [if_pos hiri] at h ⊢
      rw [← hstop]
      exact Failure.text h fun _ _ _ hread => by cases hread
    simp only [if_neg hiri] at h ⊢
    by_cases hliteral : tag = literalTag
    · simp only [if_pos hliteral] at h ⊢
      rw [← hstop]
      refine Failure.text h fun value next rest hrest => ?_
      obtain hannotations | ⟨_, -, hdone⟩ := bind_eq_error_iff.1 hrest
      · refine (decodeAnnotations_failure hannotations).imp fun r hr => ?_
        dsimp only at hr ⊢
        rw [hr]
        rfl
      · cases hdone
    · simp only [if_neg hliteral] at h ⊢
      cases h
      exact .final (by simp) fun _ => rfl

end

theorem decodeNode_append {b rest : Bytes} {x : Node} (h : decodeNode b = .ok (x, rest))
    (r : Bytes) : decodeNode (b ++ r) = .ok (x, rest ++ r) := by
  rw [eq_encodeNode_of_decodeNode h, List.append_assoc, decodeNode_encodeNode]

/-- What is read of a byte string is read of every longer one, a node with more bytes behind it and
an error as it is. Only that the bytes ran out may change, and this is said at their end: so it is
said of a byte form that is cut anywhere. -/
theorem decodeNode_incremental (b : Bytes) :
    (∀ x rest, decodeNode b = .ok (x, rest) → ∀ r, decodeNode (b ++ r) = .ok (x, rest ++ r)) ∧
    (∀ e, decodeNode b = .error e → (∀ k, e ≠ .truncated k) → ∀ r, decodeNode (b ++ r) = .error e) ∧
    (∀ k, decodeNode b = .error (.truncated k) → k = b.length) ∧
    ∀ x, b <+: encodeNode x → b ≠ encodeNode x → decodeNode b = .error (.truncated b.length) := by
  refine ⟨fun x rest h => decodeNode_append h, fun e h hne r => ?_, fun k h => ?_,
    fun x hp hne => ?_⟩
  · cases decodeNode_failure h with
    | cut => exact absurd rfl (hne _)
    | final _ hlater => exact hlater r
  · cases decodeNode_failure h with
    | cut => rfl
    | final hne _ => exact absurd rfl (hne k)
  · obtain ⟨r, hr⟩ := hp
    have hwhole : decodeNode (b ++ r) = .ok (x, []) := by
      rw [hr, ← List.append_nil (encodeNode x), decodeNode_encodeNode]
    cases hb : decodeNode b with
    | ok found =>
      -- What was found in the cut form is the node itself, so nothing was cut off.
      have hfound := decodeNode_append hb r
      rw [hwhole] at hfound
      have hnothing := congrArg (·.2) (Except.ok.inj hfound)
      obtain rfl : r = [] := (List.append_eq_nil_iff.1 hnothing.symm).2
      rw [List.append_nil] at hr
      exact absurd hr hne
    | error e =>
      cases decodeNode_failure hb with
      | cut => rfl
      | final _ hlater =>
        rw [hlater r] at hwhole
        cases hwhole

theorem decodeNode_incremental_cutLiteral :
    let x : Node := .literal "a\x00" (some "d") none
    let b : Bytes := [0x02, 0x61, 0x00, 0xff, 0x00, 0x00, 0x02, 0x64, 0x00]
    b <+: encodeNode x ∧ b ≠ encodeNode x ∧ decodeNode b = .error (.truncated 9) := by
  intro x b
  have hp : b <+: encodeNode x := by decide +kernel
  have hne : b ≠ encodeNode x := by decide +kernel
  exact ⟨hp, hne, (decodeNode_incremental b).2.2.2 x hp hne⟩

end TriplePlan.Key
