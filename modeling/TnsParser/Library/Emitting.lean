import Mathlib.Data.List.Basic

-- Computations that emit something and may fail. What has been emitted before a failure stays.
abbrev Emitting (ε π : Type) := ExceptT ε (StateM (List π))

namespace Emitting

variable {ε π α β : Type} {x : Emitting ε π α} {f : α → Emitting ε π β} {a : α} {e : ε} {y : Except ε α}
  {r : Except ε α} {out out' : List π}

def emit (p : π) : Emitting ε π Unit :=
  modify (· ++ [p])

-- The computation ends with `r`, and has emitted `out` then.
def Emits (x : Emitting ε π α) (r : Except ε α) (out : List π) : Prop :=
  ∀ w, x.run.run w = (r, w ++ out)

namespace Emits

theorem pure : Emits (pure a : Emitting ε π α) (.ok a) [] := fun w => by
  rw [List.append_nil]
  rfl

theorem emit (p : π) : Emits (emit p : Emitting ε π Unit) (.ok ()) [p] :=
  fun _ => rfl

-- A computation that emits nothing.
theorem lift : Emits (liftM y : Emitting ε π α) y [] := fun w => by
  rw [List.append_nil]
  rfl

theorem bind {r : Except ε β} (h : Emits x (.ok a) out) (h' : Emits (f a) r out') :
    Emits (x >>= f) r (out ++ out') := fun w => by
  have hx : x w = (.ok a, w ++ out) := h w
  have hf : f a (w ++ out) = (r, w ++ out ++ out') := h' (w ++ out)
  rw [← List.append_assoc, ← hf]
  simp [ExceptT.run, ExceptT.bind, ExceptT.mk, ExceptT.bindCont, StateT.run, StateT.bind, Bind.bind, hx]

theorem bind_error (h : Emits x (.error e) out) : Emits (x >>= f) (.error e) out := fun w => by
  have hx : x w = (.error e, w ++ out) := h w
  simp [ExceptT.run, ExceptT.bind, ExceptT.mk, ExceptT.bindCont, StateT.run, StateT.bind, Bind.bind, hx]
  rfl

-- After a computation that emits nothing.
theorem lift_bind {r : Except ε β} (hy : y = .ok a) (h : Emits (f a) r out) :
    Emits (liftM y >>= f) r out :=
  List.nil_append out ▸ bind (hy ▸ lift) h

theorem lift_bind_error (hy : y = .error e) : Emits (liftM y >>= f) (.error e) [] :=
  bind_error (hy ▸ lift)

-- What is returned in the end does not depend on the computation before.
theorem then_pure {b : β} (h : Emits x r out) :
    Emits (x >>= fun _ => Pure.pure b) (r.map fun _ => b) out := by
  cases r
  case error e => exact h.bind_error
  case ok a    => exact List.append_nil out ▸ h.bind pure

theorem ite_pos {c : Prop} [Decidable c] {x' : Emitting ε π α} (hc : c) (h : Emits x r out) :
    Emits (if c then x else x') r out := by
  rwa [if_pos hc]

theorem ite_neg {c : Prop} [Decidable c] {x' : Emitting ε π α} (hc : ¬c) (h : Emits x' r out) :
    Emits (if c then x else x') r out := by
  rwa [if_neg hc]

end Emits

-- What has been emitted in the end.
def emitted (x : Emitting ε π α) : List π :=
  (x.run.run []).2

theorem Emits.emitted (h : Emits x r out) : emitted x = out :=
  congrArg Prod.snd <| h []

end Emitting
