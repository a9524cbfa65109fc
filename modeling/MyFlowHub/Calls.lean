/-
Programs that make fallible, atomic calls.

A `Prog` is a tree of calls: after each call it goes on with the error the call
returned, or with none.  A call fails when the environment says so, and then changes
nothing; otherwise it does what `exec` says.  Besides running a program to its end
(`run`) one can stop it after some number of calls (`after`), which is the state a
crash leaves behind.

* `run_call`, `run_bind` — how a run is put together;
* `after_of_visits` — a program that is stopped is in one of the states its run visits.
-/
import Mathlib

namespace Calls

/-- A program over the calls `Op` with errors `E` and a result in `α`. -/
inductive Prog (Op E α : Type) where
  | done (a : α)
  | call (op : Op) (next : Option E → Prog Op E α)

variable {Op E S α β : Type}

namespace Prog

/-- Run `p`, then the program its result selects. -/
def bind : Prog Op E α → (α → Prog Op E β) → Prog Op E β
  | .done a, f => f a
  | .call op next, f => .call op fun err => (next err).bind f

end Prog

section Semantics

variable (exec : Op → S → Except E S) (fails : Op → Option E)

/-- One call: the error it returns, and the state it leaves. -/
def perform (op : Op) (s : S) : Option E × S :=
  match fails op with
  | some err => (some err, s)
  | none =>
    match exec op s with
    | .error err => (some err, s)
    | .ok s' => (none, s')

def run : Prog Op E α → S → α × S
  | .done a, s => (a, s)
  | .call op next, s =>
    let (err, s') := perform exec fails op s
    run (next err) s'

/-- The state after the first `n` calls. -/
def after : ℕ → Prog Op E α → S → S
  | 0, _, s => s
  | _ + 1, .done _, s => s
  | n + 1, .call op next, s =>
    let (err, s') := perform exec fails op s
    after n (next err) s'

variable {exec fails}

theorem perform_of_fails {op : Op} {err : E} (h : fails op = some err) (s : S) :
    perform exec fails op s = (some err, s) := by
  rw [perform, h]

theorem perform_of_ok {op : Op} {s s' : S} (h : fails op = none) (hok : exec op s = .ok s') :
    perform exec fails op s = (none, s') := by
  rw [perform, h]
  dsimp only
  rw [hok]

theorem perform_of_error {op : Op} {s : S} {err : E} (h : fails op = none)
    (herr : exec op s = .error err) : perform exec fails op s = (some err, s) := by
  rw [perform, h]
  dsimp only
  rw [herr]

theorem run_call {op : Op} {next : Option E → Prog Op E α} {s s' : S} {err : Option E}
    (h : perform exec fails op s = (err, s')) :
    run exec fails (.call op next) s = run exec fails (next err) s' := by
  rw [run, h]

theorem run_bind (p : Prog Op E α) (f : α → Prog Op E β) (s : S) :
    run exec fails (p.bind f) s =
      run exec fails (f (run exec fails p s).1) (run exec fails p s).2 := by
  induction p generalizing s with
  | done a => rfl
  | call op next ih =>
    show run exec fails ((next _).bind f) _ = _
    rw [ih]
    rfl

/-- The states a run goes through, one after each call. -/
inductive Visits (exec : Op → S → Except E S) (fails : Op → Option E) :
    List S → Prog Op E α → S → Prop
  | done {a s} : Visits exec fails [] (.done a) s
  | call {op next s s' ss} (err : Option E) (h : perform exec fails op s = (err, s'))
      (hrest : Visits exec fails ss (next err) s') :
      Visits exec fails (s' :: ss) (.call op next) s

/-- Stopped after `n` calls, the run is in the `n`-th state it visits. -/
theorem after_of_visits {ss : List S} {p : Prog Op E α} {s : S}
    (h : Visits exec fails ss p s) (n : ℕ) (d : S) :
    after exec fails n p s = (s :: ss).getD (min n ss.length) d := by
  induction h generalizing n with
  | done => cases n <;> rfl
  | call err hop hrest ih =>
    cases n with
    | zero => rfl
    | succ n =>
      rw [after, hop, List.length_cons, Nat.succ_min_succ, List.getD_cons_succ]
      exact ih n

end Semantics

end Calls
