/-!
Actions on a state that may fail. One that fails leaves the state as far as it got.
-/
namespace TriplePlan

abbrev Action (σ ε : Type) := ExceptT ε (StateM σ)

namespace Action

variable {σ ε α β : Type}

/-- A computation without a state leaves any state as it is. -/
instance : MonadLift (Except ε) (Action σ ε) := ⟨fun result s => (result, s)⟩

@[simp] theorem pure_apply (a : α) (s : σ) : (pure a : Action σ ε α) s = (.ok a, s) := rfl

@[simp] theorem get_apply (s : σ) : (get : Action σ ε σ) s = (.ok s, s) := rfl

@[simp] theorem lift_apply (result : Except ε α) (s : σ) :
    (liftM result : Action σ ε α) s = (result, s) := rfl

theorem bind_apply (x : Action σ ε α) (f : α → Action σ ε β) (s : σ) :
    (x >>= f) s = match x s with
      | (.ok a, s) => f a s
      | (.error e, s) => (.error e, s) := by
  change (match x s with | (result, s) => (ExceptT.bindCont f result : StateM σ _) s) = _
  obtain ⟨result, s⟩ := x s
  cases result <;> rfl

variable {x : Action σ ε α} {f : α → Action σ ε β} {s s' : σ}

theorem bind_ok {a : α} (h : x s = (.ok a, s')) : (x >>= f) s = f a s' := by
  rw [bind_apply, h]

theorem bind_error {e : ε} (h : x s = (.error e, s')) : (x >>= f) s = (.error e, s') := by
  rw [bind_apply, h]

theorem lift_bind_ok {result : Except ε α} {a : α} (h : result = .ok a) :
    ((liftM result : Action σ ε α) >>= f) s = f a s :=
  bind_ok (congrArg (·, s) h)

theorem lift_bind_error {result : Except ε α} {e : ε} (h : result = .error e) :
    ((liftM result : Action σ ε α) >>= f) s = (.error e, s) :=
  bind_error (congrArg (·, s) h)

end Action

end TriplePlan
