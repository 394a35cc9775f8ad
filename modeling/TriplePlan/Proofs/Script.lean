import TriplePlan.Proofs.Transaction
import Mathlib.Tactic.Choose

/-! What an update does is a script of calls. Over a transaction it gets the answers that it would
get on the map itself, and ends with the same result. If that is a success, the map it would have
made is published; if not, what it wrote stays in the transaction. -/
namespace TriplePlan

/-- A state that can be read and written. -/
class Writable (σ : Type) extends Readable σ where
  put : σ → Bytes → Bytes → σ
  delete : σ → Bytes → σ

instance : Writable Transaction := ⟨Transaction.put, Transaction.delete⟩

/-- A map that every call changes at once. -/
instance : Writable Store := ⟨fun m key value => m.insert key value, fun m key => m.erase key⟩

/-- One call after the other, each chosen by the answers to those before it, and then a result. -/
inductive Script (ε α : Type) where
  | done (result : Except ε α)
  | put (key value : Bytes) (next : Script ε α)
  | delete (key : Bytes) (next : Script ε α)
  | get (key : Bytes) (next : Except StoreError (Option Bytes) → Script ε α)
  | scan (start : Bytes) (next : Except StoreError (List (Bytes × Bytes)) → Script ε α)
  | count (key : Bytes) (next : Except StoreError Nat → Script ε α)

/-- What a call that reads is answered. -/
inductive Answer where
  | value (found : Except StoreError (Option Bytes))
  | entries (found : Except StoreError (List (Bytes × Bytes)))
  | count (found : Except StoreError Nat)
deriving DecidableEq

namespace Script

variable {σ ε α β : Type}

section Run

variable [Writable σ]

/-- The answers in the order of the calls, the result, and the state it leaves. -/
def run : Script ε α → σ → List Answer × Except ε α × σ
  | done result, s => ([], result, s)
  | put key value next, s => next.run (Writable.put s key value)
  | delete key next, s => next.run (Writable.delete s key)
  | get key next, s =>
    let found := Readable.get? s key
    ((next found).run s).map (.value found :: ·) id
  | scan start next, s =>
    let found := Readable.scan s start
    ((next found).run s).map (.entries found :: ·) id
  | count key next, s =>
    let found := readCount s key
    ((next found).run s).map (.count found :: ·) id

def body (p : Script ε α) : Action σ ε α := fun s => (p.run s).2

def bind : Script ε α → (α → Script ε β) → Script ε β
  | done (.ok a), f => f a
  | done (.error e), _ => done (.error e)
  | put key value next, f => put key value (next.bind f)
  | delete key next, f => delete key (next.bind f)
  | get key next, f => get key fun found => (next found).bind f
  | scan start next, f => scan start fun found => (next found).bind f
  | count key next, f => count key fun found => (next found).bind f

theorem body_bind (p : Script ε α) (f : α → Script ε β) :
    (p.bind f).body = (p.body >>= fun a => (f a).body : Action σ ε β) := by
  funext s
  rw [Action.bind_apply]
  induction p generalizing s with
  | done result => cases result <;> rfl
  | put key value next ih => exact ih (Writable.put s key value)
  | delete key next ih => exact ih (Writable.delete s key)
  | get key next ih => exact ih _ s
  | scan start next ih => exact ih _ s
  | count key next ih => exact ih _ s

end Run

/-- At every point the answers are those of the map that would be committed there. -/
theorem run_commit (p : Script ε α) (t : Transaction) :
    p.run t.commit = (p.run t).map id (Prod.map id Transaction.commit) := by
  induction p generalizing t with
  | done result => rfl
  | put key value next ih =>
    have hput := ih (t.put key value)
    rwa [Transaction.commit_put] at hput
  | delete key next ih =>
    have hdelete := ih (t.delete key)
    rwa [Transaction.commit_delete] at hdelete
  | get key next ih =>
    simp only [run, Transaction.readable_get?_commit, ih]
    rfl
  | scan start next ih =>
    simp only [run, Transaction.readable_scan_commit, ih]
    rfl
  | count key next ih =>
    simp only [run, Transaction.readCount_commit, ih]
    rfl

theorem run_start (p : Script ε α) (s : Store) :
    p.run s = (p.run (Transaction.start s)).map id (Prod.map id Transaction.commit) := by
  rw [← run_commit, Transaction.commit_start]

theorem base_run (p : Script ε α) (t : Transaction) : (p.run t).2.2.base = t.base := by
  induction p generalizing t with
  | done result => rfl
  | put key value next ih => exact ih (t.put key value)
  | delete key next ih => exact ih (t.delete key)
  | get key next ih => exact ih _ t
  | scan start next ih => exact ih _ t
  | count key next ih => exact ih _ t

theorem update_eq {p : Script ε α} {s : Store} {t : Transaction} {a : α}
    (h : p.body (Transaction.start s) = (.ok a, t)) : s.update p.body = (.ok a, t.commit) := by
  rw [Transaction.update_ok h]
  split
  · rename_i hempty
    have hbase := p.base_run (.start s)
    rw [body] at h
    rw [h] at hbase
    rw [Transaction.commit_of_isEmpty hempty, hbase]
    rfl
  · rfl

theorem update_body_ok {p : Script ε α} {s m : Store} {a : α} (h : p.body s = (.ok a, m)) :
    s.update p.body = (.ok a, m) := by
  rw [body, run_start] at h
  obtain ⟨hresult, rfl⟩ := Prod.mk.inj h
  exact update_eq (Prod.ext hresult rfl)

theorem update_body_error {p : Script ε α} {s m : Store} {e : ε} (h : p.body s = (.error e, m)) :
    s.update p.body = (.error e, s) := by
  rw [body, run_start] at h
  exact Transaction.update_error (Prod.ext (Prod.mk.inj h).1 rfl)

end Script

section

variable {ε α β : Type}

def IsScript (x : Action Transaction ε α) : Prop := ∃ p : Script ε α, p.body = x

namespace IsScript

theorem lift (result : Except ε α) : IsScript (liftM result : Action Transaction ε α) :=
  ⟨.done result, rfl⟩

theorem pure (a : α) : IsScript (Pure.pure a : Action Transaction ε α) := lift (.ok a)

theorem put (key value : Bytes) :
    IsScript (modify (·.put key value) : Action Transaction ε PUnit) :=
  ⟨.put key value (.done (.ok ())), rfl⟩

theorem get (key : Bytes) (f : Except StoreError (Option Bytes) → Except ε α) :
    IsScript fun t => (f (Readable.get? t key), t) :=
  ⟨.get key fun found => .done (f found), rfl⟩

theorem count (key : Bytes) : IsScript fun t => (readCount t key, t) := ⟨.count key .done, rfl⟩

theorem bind {x : Action Transaction ε α} {f : α → Action Transaction ε β} (hx : IsScript x)
    (hf : ∀ a, IsScript (f a)) : IsScript (x >>= f) := by
  obtain ⟨p, rfl⟩ := hx
  choose q hq using hf
  exact ⟨p.bind q, (Script.body_bind p q).trans (congrArg _ (funext hq))⟩

theorem read_bind {r : Transaction → Except ε α} {f : α → Action Transaction ε β}
    (hread : IsScript fun t => (r t, t)) (hf : ∀ a, IsScript (f a)) :
    IsScript (do f (← r (← MonadState.get)) : Action Transaction ε β) :=
  hread.bind hf

theorem forM {f : β → Action Transaction ε PUnit} (h : ∀ b, IsScript (f b)) (l : List β) :
    IsScript (l.forM f) := by
  induction l with
  | nil => exact pure PUnit.unit
  | cons b l ih => exact bind (h b) fun _ => ih

theorem foldlM {f : α → β → Action Transaction ε α} (h : ∀ a b, IsScript (f a b)) (l : List β)
    (a : α) : IsScript (l.foldlM f a) := by
  induction l generalizing a with
  | nil => exact pure a
  | cons b l ih => exact bind (h a b) fun a => ih a

theorem update_ok {x : Action Transaction ε α} (h : IsScript x) {s : Store} {t : Transaction}
    {a : α} (hrun : x (.start s) = (.ok a, t)) : s.update x = (.ok a, t.commit) := by
  obtain ⟨p, rfl⟩ := h
  exact p.update_eq hrun

end IsScript

end

end TriplePlan
