import TriplePlan.Proofs.Except
import TriplePlan.Proofs.Index.Content
import TriplePlan.Proofs.Index.Update

/-! What storing a triple does to any state, whatever its entries hold. Each key is written from its
own value alone: a value key gets its list with the source in it, and a counter of a new triple one
more than was read there. The triple is refused exactly where one of these values cannot be read. -/
namespace TriplePlan.Index

variable {t t' : Transaction} {source : Source} {key : Bytes} {keys : List Bytes}

def countIn? (value : Option Bytes) : Option Nat := value.elim (some 0) Key.decodeCount?

theorem countIn?_eq_none_iff {value : Option Bytes} :
    countIn? value = none ↔ ∃ bytes, value = some bytes ∧ bytes.length ≠ 8 := by
  cases value with
  | none => simp [countIn?]
  | some bytes => simp [countIn?, Key.decodeCount?]

theorem readCount_ok_iff {σ : Type} [Readable σ] {s : σ} {value : Option Bytes}
    (hget : Readable.get? s key = .ok value) {n : Nat} :
    readCount s key = .ok n ↔ countIn? value = some n := by
  rw [readCount, hget]
  cases value with
  | none => simp [countIn?, bind, Except.bind, pure, Except.pure]
  | some value =>
    cases hvalue : Key.decodeCount? value <;>
      simp [countIn?, hvalue, bind, Except.bind, pure, Except.pure, throw, throwThe,
        MonadExceptOf.throw]

/-- What a value key holds once the source is added to the list that can be read there. -/
def withSource (source : Source) (value : Option Bytes) : Option (Option Bytes) :=
  (sourcesIn? value).map fun list =>
    if (list.insert source).1 then some (list.insert source).2.toBytes else value

def countedUp (value : Option Bytes) : Option (Option Bytes) :=
  (countIn? value).map fun n => some (Key.encodeCount (n + 1))

theorem withSource_eq {value : Option Bytes} {list : SourceList}
    (h : sourcesIn? value = some list) : withSource source value =
      some (if (list.insert source).1 then some (list.insert source).2.toBytes else value) := by
  rw [withSource, h, Option.map_some]

theorem withSource_isSome {value value' : Option Bytes}
    (h : withSource source value = some value') : value'.isSome := by
  obtain ⟨list, hlist, rfl⟩ := Option.map_eq_some_iff.1 h
  split
  · rfl
  · rename_i hold
    cases value with
    | some bytes => rfl
    | none =>
      -- A source is new to a list that has none.
      cases hlist
      exact absurd ((SourceList.ascending_empty.sorted.insert_fst source).2 List.not_mem_nil) hold

/-- A run over keys that leaves under each what `write` makes of its value, and fails if `write`
makes nothing of one of them. -/
inductive Writes (write : Option Bytes → Option (Option Bytes)) (keys : List Bytes)
    (t : Transaction) : Except StoreError Unit × Transaction → Prop
  | refused {key : Bytes} {e : StoreError} {t' : Transaction} :
    key ∈ keys → write (t.get? key) = none → Writes write keys t (.error e, t')
  | done {t' : Transaction} : (∀ key ∈ keys, write (t.get? key) = some (t'.get? key)) →
    (∀ key, key ∉ keys → t'.get? key = t.get? key) → Writes write keys t (.ok (), t')

theorem Writes.put {write : Option Bytes → Option (Option Bytes)} {value : Bytes}
    (h : write (t.get? key) = some (some value)) :
    Writes write [key] t (.ok (), t.put key value) := by
  refine .done (fun k hk => ?_) fun k hk => ?_
  · rw [List.mem_singleton.1 hk, h, Transaction.get?_put, if_pos rfl]
  · rw [Transaction.get?_put, if_neg (List.mem_singleton.not.1 hk)]

theorem addSource_writes (source : Source) (key : Bytes) (t : Transaction) :
    Writes (withSource source) [key] t (addSource source key t) := by
  have hread : readSources t key = (sourcesIn? (t.get? key)).elim (.error .codec) .ok :=
    readSources_eq t key
  simp only [addSource, Action.bind_apply, Action.get_apply, Action.lift_apply, hread]
  cases hlist : sourcesIn? (t.get? key) with
  | none => exact .refused List.mem_cons_self (by rw [withSource, hlist]; rfl)
  | some list =>
    have hwrite : withSource source (t.get? key) = _ := withSource_eq hlist
    dsimp only [Option.elim_some]
    cases hinsert : list.insert source with
    | mk added list' =>
      rw [hinsert] at hwrite
      cases added with
      | true => exact .put hwrite
      | false =>
        refine .done (fun k hk => ?_) fun _ _ => rfl
        rw [List.mem_singleton.1 hk]
        exact hwrite

theorem increment_writes (key : Bytes) (t : Transaction) :
    Writes countedUp [key] t (increment key t) := by
  simp only [increment, Action.bind_apply, Action.get_apply, Action.lift_apply]
  cases hread : readCount t key with
  | ok n => exact .put (congrArg (Option.map _) ((readCount_ok_iff rfl).1 hread))
  | error e =>
    refine .refused List.mem_cons_self (Option.map_eq_none_iff.2 ?_)
    cases hcount : countIn? (t.get? key) with
    | none => rfl
    | some n =>
      rw [(readCount_ok_iff rfl).2 hcount] at hread
      cases hread

/-- No step reads what another one has written. -/
theorem Writes.forM {write : Option Bytes → Option (Option Bytes)}
    {f : Bytes → Action Transaction StoreError Unit}
    (hf : ∀ key t, Writes write [key] t (f key t)) (hn : keys.Nodup) (t : Transaction) :
    Writes write keys t (keys.forM f t) := by
  induction keys generalizing t with
  | nil => exact .done nofun fun _ _ => rfl
  | cons key keys ih =>
    obtain ⟨hkey, hkeys⟩ := List.nodup_cons.1 hn
    have hstep := hf key t
    change Writes write (key :: keys) t ((f key >>= fun _ => keys.forM f) t)
    rw [Action.bind_apply]
    generalize f key t = first at hstep ⊢
    cases hstep with
    | refused hk hnone => exact .refused List.mem_cons_self (List.mem_singleton.1 hk ▸ hnone)
    | @done t₁ hwritten hkept =>
      have hsame : ∀ k ∈ keys, t₁.get? k = t.get? k := fun k hk =>
        hkept k fun hmem => hkey (List.mem_singleton.1 hmem ▸ hk)
      have hrest := ih hkeys t₁
      dsimp only
      generalize keys.forM f t₁ = last at hrest ⊢
      cases hrest with
      | refused hk hnone => exact .refused (List.mem_cons_of_mem _ hk) (hsame _ hk ▸ hnone)
      | done hwritten' hkept' =>
        refine .done (List.forall_mem_cons.2 ⟨?_, fun k hk => ?_⟩) fun k hk => ?_
        · rw [hkept' key hkey]
          exact hwritten key List.mem_cons_self
        · rw [← hsame k hk]
          exact hwritten' k hk
        · obtain ⟨hne, hnot⟩ := not_or.1 (List.mem_cons.not.1 hk)
          rw [hkept' k hnot, hkept k (List.mem_singleton.not.2 hne)]

/-- What is read under the keys of the triple allows to store it: every list can be read, and if the
triple is new every counter. -/
structure Storable (get? : Bytes → Option Bytes) (triple : Triple Node) : Prop where
  sources : ∀ key ∈ valueKeys triple, (sourcesIn? (get? key)).isSome
  counters : get? (Key.tripleKey triple .subject) = none →
    ∀ key ∈ counterKeys triple, (countIn? (get? key)).isSome

/-- What has been written once a triple is stored. -/
structure Stored (triple : Triple Node) (source : Source) (t : Transaction) (new : Bool)
    (t' : Transaction) : Prop where
  new_iff : new = true ↔ t.get? (Key.tripleKey triple .subject) = none
  value : ∀ key ∈ valueKeys triple, withSource source (t.get? key) = some (t'.get? key)
  counter : ∀ key ∈ counterKeys triple,
    if new then countedUp (t.get? key) = some (t'.get? key) else t'.get? key = t.get? key
  kept : ∀ key, key ∉ valueKeys triple → key ∉ counterKeys triple → t'.get? key = t.get? key

inductive Stores (triple : Triple Node) (source : Source) (t : Transaction) :
    Except StoreError Bool × Transaction → Prop
  | refused {e : StoreError} {t' : Transaction} :
    ¬ Storable t.get? triple → Stores triple source t (.error e, t')
  | done {new : Bool} {t' : Transaction} : Storable t.get? triple →
    Stored triple source t new t' → Stores triple source t (.ok new, t')

theorem valueKeys_disjoint {triple : Triple Node} (hv : key ∈ valueKeys triple)
    (triple' : Triple Node) : key ∉ counterKeys triple' := by
  obtain ⟨u, rfl⟩ := mem_valueKeys.1 hv
  exact tripleKey_not_mem_counterKeys triple triple' u

theorem insert_stores (t : Transaction) (triple : Triple Node) (source : Source) :
    Stores triple source t (insert triple source t) := by
  have hnew : (!(t.get? (Key.tripleKey triple .subject)).isSome) = true ↔
      t.get? (Key.tripleKey triple .subject) = none := by simp
  have hsources := Writes.forM (addSource_writes source) (valueKeys_nodup triple) t
  have hstored : isStored t triple = .ok (t.get? (Key.tripleKey triple .subject)).isSome := rfl
  simp only [insert, Action.bind_apply, Action.get_apply, Action.lift_apply, hstored]
  generalize (!(t.get? (Key.tripleKey triple .subject)).isSome) = new at hnew
  generalize (valueKeys triple).forM (addSource source) t = first at hsources ⊢
  cases hsources with
  | refused hk hnone =>
    refine .refused fun h => ?_
    have hread := h.sources _ hk
    rw [Option.map_eq_none_iff.1 hnone] at hread
    cases hread
  | @done t₁ hwritten hkept =>
    have hread : ∀ key ∈ valueKeys triple, (sourcesIn? (t.get? key)).isSome := by
      intro k hk
      obtain ⟨list, hlist, -⟩ := Option.map_eq_some_iff.1 (hwritten k hk)
      rw [hlist]
      rfl
    have hcounter : ∀ k ∈ counterKeys triple, t₁.get? k = t.get? k := fun k hk =>
      hkept k fun hv => valueKeys_disjoint hv triple hk
    cases new with
    | false =>
      have hold : t.get? (Key.tripleKey triple .subject) ≠ none := hnew.not.1 (by simp)
      exact .done ⟨hread, fun h => absurd h hold⟩
        ⟨hnew, hwritten, hcounter, fun k hv _ => hkept k hv⟩
    | true =>
      have hcounters := Writes.forM increment_writes (counterKeys_nodup triple) t₁
      dsimp only
      rw [if_pos rfl, Action.bind_apply]
      generalize (counterKeys triple).forM increment t₁ = last at hcounters ⊢
      cases hcounters with
      | refused hk hnone =>
        refine .refused fun h => ?_
        have hread' := h.counters (hnew.1 rfl) _ hk
        rw [← hcounter _ hk, Option.map_eq_none_iff.1 hnone] at hread'
        cases hread'
      | done hcounted hkept' =>
        refine .done ⟨hread, fun _ k hk => ?_⟩ ⟨hnew, fun k hk => ?_, fun k hk => ?_,
          fun k hv hc => ?_⟩
        · obtain ⟨n, hn, -⟩ := Option.map_eq_some_iff.1 (hcounted k hk)
          rw [← hcounter k hk, hn]
          rfl
        · rw [hkept' k (valueKeys_disjoint hk triple)]
          exact hwritten k hk
        · rw [← hcounter k hk]
          exact hcounted k hk
        · rw [hkept' k hc, hkept k hv]

theorem insert_ok {triple : Triple Node} {new : Bool}
    (h : insert triple source t = (.ok new, t')) :
    (∀ k ∈ valueKeys triple, (t'.get? k).isSome) ∧
    (∀ k ∈ counterKeys triple, if new then
      ∃ n, readCount t k = .ok n ∧ t'.get? k = some (Key.encodeCount (n + 1))
      else t'.get? k = t.get? k) ∧
    ∀ k, k ∉ valueKeys triple → k ∉ counterKeys triple → t'.get? k = t.get? k := by
  have hstores := insert_stores t triple source
  rw [h] at hstores
  cases hstores with
  | done _ hstored =>
    refine ⟨fun k hk => withSource_isSome (hstored.value k hk), fun k hk => ?_, hstored.kept⟩
    have hcounter := hstored.counter k hk
    cases new with
    | false => exact hcounter
    | true =>
      obtain ⟨n, hn, hget⟩ := Option.map_eq_some_iff.1 hcounter
      exact ⟨n, (readCount_ok_iff rfl).2 hn, hget.symm⟩

end TriplePlan.Index
