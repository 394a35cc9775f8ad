import TriplePlan.Proofs.KeyOrder
import TriplePlan.Proofs.Scan

/-! Candidates of any store. What is read behind a value prefix is the node that a tail starts with,
and what follows the node is not looked at. So a tail is refused only if it starts with no node, and
two keys that part behind a node give the same candidate twice. -/
namespace TriplePlan

/-- A prefix, a node behind it, and what follows the node. -/
def tailKey (start : Bytes) (tail : Node × Bytes) : Bytes :=
  start ++ (Key.encodeNode tail.1 ++ tail.2)

variable {start : Bytes}

theorem candidate_eq_ok_iff {key c : Bytes} (hp : start <+: key) :
    candidate start key = .ok c ↔ ∃ t, key = tailKey start t ∧ c = Key.encodeNode t.1 := by
  obtain ⟨tail, rfl⟩ := hp
  rw [candidate_append]
  constructor
  · intro h
    cases hd : Key.decodeNode tail with
    | error e => rw [hd] at h; cases h
    | ok t =>
      rw [hd] at h
      cases h
      exact ⟨t, congrArg (start ++ ·) (Key.eq_encodeNode_of_decodeNode hd), rfl⟩
  · rintro ⟨⟨x, rest⟩, hkey, rfl⟩
    rw [List.append_cancel_left hkey, Key.decodeNode_encodeNode]
    rfl

theorem candidate_eq_error_iff {key : Bytes} {e : StoreError} (hp : start <+: key) :
    candidate start key = .error e ↔
      ∃ cause, Key.decodeNode (key.drop start.length) = .error cause ∧ e = .corruptKey cause := by
  obtain ⟨tail, rfl⟩ := hp
  rw [candidate_append, List.drop_left]
  cases Key.decodeNode tail with
  | error cause => simp [Except.map, Except.mapError, eq_comm]
  | ok t => simp [Except.map, Except.mapError]

theorem mapM_candidate_eq_ok_iff {keys out : List Bytes} (hp : ∀ key ∈ keys, start <+: key) :
    keys.mapM (candidate start) = .ok out ↔
      ∃ tails : List (Node × Bytes), keys = tails.map (tailKey start) ∧
        out = tails.map fun t => Key.encodeNode t.1 := by
  rw [mapM_eq_ok_iff]
  induction keys generalizing out with
  | nil => cases out <;> simp
  | cons key keys ih =>
    obtain ⟨hkey, hkeys⟩ := List.forall_mem_cons.1 hp
    cases out with
    | nil => simp
    | cons c out =>
      rw [List.map_cons, List.map_cons, List.cons.injEq, candidate_eq_ok_iff hkey, ih hkeys]
      constructor
      · rintro ⟨⟨t, rfl, rfl⟩, tails, rfl, rfl⟩
        exact ⟨t :: tails, rfl, rfl⟩
      · rintro ⟨tails, hk, ho⟩
        cases tails with
        | nil => cases hk
        | cons t tails =>
          cases hk
          cases ho
          exact ⟨⟨t, rfl, rfl⟩, tails, rfl, rfl⟩

theorem mapM_candidate_eq_error_iff {keys : List Bytes} {e : StoreError}
    (hp : ∀ key ∈ keys, start <+: key) :
    keys.mapM (candidate start) = .error e ↔ ∃ before key after cause,
      keys = before ++ key :: after ∧ (∀ b ∈ before, ∃ t, b = tailKey start t) ∧
      Key.decodeNode (key.drop start.length) = .error cause ∧ e = .corruptKey cause := by
  rw [mapM_eq_error_iff]
  constructor
  · rintro ⟨before, key, after, rfl, hbefore, herr⟩
    obtain ⟨cause, hcause⟩ := (candidate_eq_error_iff (hp key (by simp))).1 herr
    refine ⟨before, key, after, cause, rfl, fun b hb => ?_, hcause⟩
    obtain ⟨c, hc⟩ := hbefore b hb
    obtain ⟨t, ht, -⟩ := (candidate_eq_ok_iff (hp b (List.mem_append_left _ hb))).1 hc
    exact ⟨t, ht⟩
  · rintro ⟨before, key, after, cause, rfl, hbefore, hcause⟩
    refine ⟨before, key, after, rfl, fun b hb => ?_,
      (candidate_eq_error_iff (hp key (by simp))).2 ⟨cause, hcause⟩⟩
    obtain ⟨t, ht⟩ := hbefore b hb
    exact ⟨_, (candidate_eq_ok_iff (hp b (List.mem_append_left _ hb))).2 ⟨t, ht, rfl⟩⟩

/-- Keys in ascending order have their nodes in the same order, but a node may come again. -/
theorem nodes_ascending {tails : List (Node × Bytes)}
    (h : (tails.map (tailKey start)).Pairwise fun a b => compare a b = .lt) :
    (tails.map fun t => Key.encodeNode t.1).Pairwise fun a b => compare a b ≠ .gt := by
  rw [List.pairwise_map] at h ⊢
  refine h.imp ?_
  intro a b hlt
  rw [tailKey, tailKey, compare_append_left, Key.compare_encodeNode] at hlt
  have hnode := Key.compare_encodeNode a.1 b.1 [] []
  rw [List.append_nil, List.append_nil] at hnode
  rw [hnode]
  cases hc : a.1.keyCmp b.1 <;> simp [hc] at hlt ⊢

/-- The keys under a prefix are those of the listed candidates, one for each, and these ascend
strictly. -/
def Store.ListsTails (s : Store) (start : Bytes) (l : List Bytes) : Prop :=
  s.keysUnder start = l.map (start ++ ·) ∧ l.Pairwise fun a b => compare a b = .lt

theorem Store.listsTails_iff {s : Store} {tails : List (Node × Bytes)}
    (h : s.keysUnder start = tails.map (tailKey start)) :
    (s.ListsTails start (tails.map fun t => Key.encodeNode t.1)) ↔
      ∀ key ∈ s.keysUnder start, ∃ x, key = start ++ Key.encodeNode x := by
  constructor
  · rintro ⟨hkeys, -⟩ key hkey
    rw [hkeys, List.map_map, List.mem_map] at hkey
    obtain ⟨t, -, rfl⟩ := hkey
    exact ⟨t.1, rfl⟩
  · intro hwhole
    have hkeys : s.keysUnder start = (tails.map fun t => Key.encodeNode t.1).map (start ++ ·) := by
      rw [h, List.map_map]
      refine List.map_congr_left fun t ht => ?_
      obtain ⟨x, hx⟩ := hwhole (tailKey start t) (h ▸ List.mem_map_of_mem ht)
      have hrest := Key.encodeNode_append_inj (s := [])
        ((List.append_cancel_left hx).trans (List.append_nil _).symm)
      rw [tailKey, hrest.2, List.append_nil]
      rfl
    have hsorted := s.keysUnder_ascending start
    rw [hkeys, List.pairwise_map] at hsorted
    refine ⟨hkeys, hsorted.imp ?_⟩
    intro a b hlt
    rwa [compare_append_left] at hlt

/-- On any store the candidates are the nodes that the tails start with, key by key, and the first
tail without a node is the error. The candidates ascend, but they are the tails themselves, each
once, only if nothing follows a node. -/
theorem candidateValues_tails (s : Store) (u : Position) (m n : Node) :
    (∀ l, candidateValues s u m n = .ok l ↔ ∃ tails : List (Node × Bytes),
      s.keysUnder (Key.valuePrefix u m n) = tails.map (tailKey (Key.valuePrefix u m n)) ∧
      l = tails.map fun t => Key.encodeNode t.1) ∧
    (∀ e, candidateValues s u m n = .error e ↔ ∃ before key after cause,
      s.keysUnder (Key.valuePrefix u m n) = before ++ key :: after ∧
      (∀ b ∈ before, ∃ t, b = tailKey (Key.valuePrefix u m n) t) ∧
      Key.decodeNode (key.drop (Key.valuePrefix u m n).length) = .error cause ∧
      e = .corruptKey cause) ∧
    ∀ l, candidateValues s u m n = .ok l →
      l.Pairwise (fun a b => compare a b ≠ .gt) ∧
      (s.ListsTails (Key.valuePrefix u m n) l ↔
        ∀ key ∈ s.keysUnder (Key.valuePrefix u m n), ∃ x, key = Key.valueKey u m n x) := by
  have hunder : ∀ key ∈ s.keysUnder (Key.valuePrefix u m n), Key.valuePrefix u m n <+: key :=
    fun key hkey => (Store.mem_keysUnder.1 hkey).2
  have hok : ∀ l, candidateValues s u m n = .ok l ↔ ∃ tails : List (Node × Bytes),
      s.keysUnder (Key.valuePrefix u m n) = tails.map (tailKey (Key.valuePrefix u m n)) ∧
      l = tails.map fun t => Key.encodeNode t.1 := by
    intro l
    rw [candidateValues_eq_mapM, mapM_candidate_eq_ok_iff hunder]
  refine ⟨hok, ?_, ?_⟩
  · intro e
    rw [candidateValues_eq_mapM, mapM_candidate_eq_error_iff hunder]
  · intro l hl
    obtain ⟨tails, hkeys, rfl⟩ := (hok l).1 hl
    have hsorted := s.keysUnder_ascending (Key.valuePrefix u m n)
    rw [hkeys] at hsorted
    exact ⟨nodes_ascending hsorted, Store.listsTails_iff hkeys⟩

def longerTail : Store :=
  let key := Key.valueKey .subject (.iri "m") (.iri "n") (.iri "a")
  .ofList [(key, []), (key ++ [0xff], [])]

theorem longerTail_candidates : candidateValues longerTail .subject (.iri "m") (.iri "n") =
    .ok [Key.encodeNode (.iri "a"), Key.encodeNode (.iri "a")] := by
  decide +kernel

theorem candidateValues_tails_longerTail :
    candidateValues longerTail .subject (.iri "m") (.iri "n") =
        .ok [Key.encodeNode (.iri "a"), Key.encodeNode (.iri "a")] ∧
      [Key.encodeNode (.iri "a"), Key.encodeNode (.iri "a")].Pairwise
        (fun a b => compare a b ≠ .gt) :=
  ⟨longerTail_candidates, ((candidateValues_tails longerTail .subject (.iri "m") (.iri "n")).2.2 _
    longerTail_candidates).1⟩

theorem candidateValues_longerTail :
    (∃ l, candidateValues longerTail .subject (.iri "m") (.iri "n") = .ok l ∧
      ¬ longerTail.ListsTails (Key.valuePrefix .subject (.iri "m") (.iri "n")) l) ∧
    ∃ key ∈ longerTail.keysUnder (Key.valuePrefix .subject (.iri "m") (.iri "n")),
      ∀ x, key ≠ Key.valueKey .subject (.iri "m") (.iri "n") x := by
  refine ⟨⟨_, longerTail_candidates, ?_⟩,
    Key.valueKey .subject (.iri "m") (.iri "n") (.iri "a") ++ [0xff],
    by decide +kernel, ?_⟩
  · rintro ⟨-, hsorted⟩
    revert hsorted
    decide +kernel
  · intro x hx
    have hrest := Key.encodeNode_append_inj (s := [])
      (((List.append_cancel_left ((List.append_assoc ..).symm.trans hx))).trans
        (List.append_nil _).symm)
    cases hrest.2

end TriplePlan
