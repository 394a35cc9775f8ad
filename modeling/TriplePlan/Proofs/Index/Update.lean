import TriplePlan.Store.Index
import TriplePlan.Proofs.Script

/-! Indexing a document is one update that makes calls and does nothing else: what holds of every
update holds of it. -/
namespace TriplePlan

namespace Index

def sourcesIn? (value : Option Bytes) : Option SourceList :=
  value.elim (some .empty) SourceList.ofBytes?

theorem readSources_eq {σ : Type} [Readable σ] (s : σ) (key : Bytes) : readSources s key =
    Readable.get? s key >>= fun value => (sourcesIn? value).elim (.error .codec) .ok := by
  rw [readSources]
  refine congrArg _ (funext fun value => ?_)
  cases value with
  | none => rfl
  | some bytes =>
    dsimp only [sourcesIn?, Option.elim_some]
    cases SourceList.ofBytes? bytes <;> rfl

theorem isScript_addSource (source : Source) (key : Bytes) : IsScript (addSource source key) := by
  refine IsScript.read_bind (r := fun t => readSources t key) ?_ fun list => ?_
  · simp only [readSources_eq]
    exact IsScript.get key fun found =>
      found >>= fun value => (sourcesIn? value).elim (.error .codec) .ok
  · cases list.insert source with
    | mk added list =>
      cases added with
      | true => exact IsScript.put key list.toBytes
      | false => exact IsScript.pure ()

theorem isScript_increment (key : Bytes) : IsScript (increment key) :=
  IsScript.read_bind (IsScript.count key) fun n => IsScript.put key (Key.encodeCount (n + 1))

theorem isScript_insert (triple : Triple Node) (source : Source) :
    IsScript (insert triple source) := by
  refine IsScript.read_bind (r := fun t => isStored t triple)
    (IsScript.get (Key.tripleKey triple .subject) fun found => found.map Option.isSome)
    fun stored => (IsScript.forM (isScript_addSource source) _).bind fun _ => ?_
  cases stored with
  | false => exact (IsScript.forM isScript_increment _).bind fun _ => IsScript.pure _
  | true => exact IsScript.pure _

theorem isScript_insertStatement (document : String) (r : Report)
    (entry : String × Nat × Statement) : IsScript (insertStatement document r entry) :=
  (IsScript.lift (ordinal entry.2.1)).bind fun index =>
    (isScript_insert (ground document entry.2.2) ⟨document, entry.1, index⟩).bind fun _ =>
      IsScript.pure _

theorem isScript_statements (document : String) (d : Dataset) :
    IsScript (d.toList.foldlM (insertStatement document) ⟨0, 0⟩) :=
  IsScript.foldlM (isScript_insertStatement document) _ _

/-- Every call of an update is answered as on the map that the calls before it would have made. That
map is published if the update succeeds; if it fails, after whatever calls, its writes are left in
its transaction and the store is as it was. So it is with the one update that indexes a document. -/
theorem update_refines {ε α : Type} (s : Store) (p : Script ε α) (document : String) (d : Dataset) :
    (p.run (Transaction.start s)).1 = (p.run s).1 ∧
      (p.body (Transaction.start s)).2.commit = (p.body s).2 ∧
      (∀ a m, p.body s = (.ok a, m) → s.update p.body = (.ok a, m)) ∧
      (∀ e m, p.body s = (.error e, m) → s.update p.body = (.error e, s)) ∧
      (∀ (m : Store) (start : Bytes), ∃ found, Readable.scan m start = .ok found ∧
        found.Pairwise (fun a b => compare a.1 b.1 = .lt) ∧
          ∀ k v, (k, v) ∈ found ↔ m.get? k = some v ∧ start <+: k) ∧
      (∃ q : Script StoreError Report, ∀ m : Store, m.index document d = m.update q.body) ∧
      ∀ e, (s.index document d).1 = .error e → (s.index document d).2 = s := by
  obtain ⟨q, hq⟩ := isScript_statements document d
  have hindex : ∀ m : Store, m.index document d = m.update q.body := fun m => by
    rw [Store.index, ← hq]
  refine ⟨?_, ?_, fun a m => p.update_body_ok, fun e m => p.update_body_error,
    fun m start => ⟨_, rfl, scan_spec m start⟩, ⟨q, hindex⟩, fun e he => ?_⟩
  · rw [p.run_start]
    rfl
  · rw [Script.body, Script.body, p.run_start]
    rfl
  · rw [hindex] at he ⊢
    cases hrun : q.body s with
    | mk result m =>
      cases result with
      | ok a =>
        rw [q.update_body_ok hrun] at he
        cases he
      | error e' => rw [q.update_body_error hrun]

def shortCounter : Store := .ofList
  [(Key.majorKey .object (.iri "c"), [0, 1, 2]), ([1], [10]), ([1, 3], [11])]

def twoStatements : Dataset := .ofStatements
  [⟨.node (.iri "a"), .node (.iri "p"), .node (.iri "o")⟩,
    ⟨.node (.iri "b"), .node (.iri "p"), .node (.iri "c")⟩]

/-- Writes over a key, deletes it, writes it again and scans on the way, and ends with what the
counter of `c` is read as. -/
def rewriting (key : Bytes) : Script StoreError Nat :=
  .put [1] [20] <| .put [1, 2] [21] <| .delete [1] <| .get [1] fun _ => .scan [1] fun _ =>
    .put [1] [22] <| .delete [1, 3] <| .scan [1] fun _ => .count key .done

def rewritingAnswers (count : Except StoreError Nat) : List Answer :=
  [.value (.ok none), .entries (.ok [([1, 2], [21]), ([1, 3], [11])]),
    .entries (.ok [([1], [22]), ([1, 2], [21])]), .count count]

theorem update_refines_shortCounter :
    ((rewriting [5]).run (Transaction.start shortCounter)).1 = rewritingAnswers (.ok 0) ∧
    shortCounter.update (rewriting [5]).body = (.ok 0,
      .ofList [(Key.majorKey .object (.iri "c"), [0, 1, 2]), ([1], [22]), ([1, 2], [21])]) ∧
    shortCounter.update (rewriting (Key.majorKey .object (.iri "c"))).body =
      (.error (.corruptCounter (Key.majorKey .object (.iri "c")) 3), shortCounter) ∧
    (shortCounter.index "d" twoStatements).1 =
      .error (.corruptCounter (Key.majorKey .object (.iri "c")) 3) ∧
    (shortCounter.index "d" twoStatements).2 = shortCounter := by
  have hfails : (shortCounter.index "d" twoStatements).1 =
      .error (.corruptCounter (Key.majorKey .object (.iri "c")) 3) := by decide +kernel
  obtain ⟨hanswers, -, hok, -⟩ := update_refines shortCounter (rewriting [5]) "d" twoStatements
  obtain ⟨-, -, -, herror, -, -, hindex⟩ := update_refines shortCounter
    (rewriting (Key.majorKey .object (.iri "c"))) "d" twoStatements
  have hwritten : ((rewriting [5]).run shortCounter).2 = (.ok 0,
      .ofList [(Key.majorKey .object (.iri "c"), [0, 1, 2]), ([1], [22]), ([1, 2], [21])]) := by
    decide +kernel
  have hshort : ((rewriting (Key.majorKey .object (.iri "c"))).run shortCounter).2.1 =
      .error (.corruptCounter (Key.majorKey .object (.iri "c")) 3) := by
    decide +kernel
  exact ⟨hanswers.trans (by decide +kernel), hok _ _ hwritten, herror _ _ (Prod.ext hshort rfl),
    hfails, hindex _ hfails⟩

end Index

end TriplePlan
