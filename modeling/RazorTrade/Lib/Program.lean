import Mathlib.Data.List.Basic

/-! # Programs as trees of operations

A program of a task is the tree of the operations it may issue (`Prog`): `ret a`
ends with the value `a`, `op o k` issues `o` and goes on with `k` on the answer.
Everything between two operations is pure, so one operation is one atomic step of
the task and tasks interleave between operations.

What an operation does is a `Sem`: a choice (which answer, which fault) picks at
most one outcome, and no outcome under any choice means that the task is stuck
there.  Two views of a program:

* `All P p`: every operation that `p` can issue, whatever the answers, satisfies
  `P`.  It composes (`all_bind`), so it is decided by reading the program text.
* `exec`: the run of `p` alone under a list of choices, with the list of its
  events.  A list that ends before the program is a crash.  `Returns` is what some
  such run returns. -/

namespace Interaction

/-- A program that issues operations `Op`, answered in `Ans`. -/
inductive Prog (Op : Type) (Ans : Op → Type) (α : Type) : Type where
  | ret (a : α)
  | op (o : Op) (k : Ans o → Prog Op Ans α)

variable {Op : Type} {Ans : Op → Type} {α β γ : Type}

namespace Prog

def bind : Prog Op Ans α → (α → Prog Op Ans β) → Prog Op Ans β
  | .ret a, f => f a
  | .op o k, f => .op o fun x => (k x).bind f

instance : Monad (Prog Op Ans) where
  pure := .ret
  bind := bind

/-- Issue one operation and return its answer. -/
def call (o : Op) : Prog Op Ans (Ans o) := .op o .ret

@[simp] theorem pure_eq (a : α) : (pure a : Prog Op Ans α) = .ret a := rfl

@[simp] theorem ret_bind (a : α) (f : α → Prog Op Ans β) : (Prog.ret a >>= f) = f a := rfl

@[simp] theorem op_bind (o : Op) (k : Ans o → Prog Op Ans α) (f : α → Prog Op Ans β) :
    (Prog.op o k >>= f) = .op o fun x => k x >>= f := rfl

@[simp] theorem call_bind (o : Op) (f : Ans o → Prog Op Ans β) :
    (call o >>= f) = .op o f := rfl

theorem bind_ret (p : Prog Op Ans α) : (p >>= Prog.ret) = p := by
  induction p with
  | ret a => rfl
  | op o k ih => exact congrArg (Prog.op o) (funext ih)

theorem bind_assoc (p : Prog Op Ans α) (f : α → Prog Op Ans β) (g : β → Prog Op Ans γ) :
    (p >>= f >>= g) = p >>= fun a => f a >>= g := by
  induction p with
  | ret a => rfl
  | op o k ih => exact congrArg (Prog.op o) (funext ih)

instance : LawfulMonad (Prog Op Ans) :=
  LawfulMonad.mk' _ (fun p => bind_ret p) (fun _ _ => rfl) bind_assoc

/-! ## The operations of a program -/

/-- Every operation that the program can issue satisfies `P`. -/
def All (P : Op → Prop) : Prog Op Ans α → Prop
  | .ret _ => True
  | .op o k => P o ∧ ∀ x, (k x).All P

variable {P P' : Op → Prop}

@[simp] theorem all_ret (a : α) : (Prog.ret a : Prog Op Ans α).All P := trivial

@[simp] theorem all_op (o : Op) (k : Ans o → Prog Op Ans α) :
    (Prog.op o k).All P ↔ P o ∧ ∀ x, (k x).All P := Iff.rfl

@[simp] theorem all_call (o : Op) : (call o : Prog Op Ans (Ans o)).All P ↔ P o := by
  simp [call]

theorem all_bind {p : Prog Op Ans α} {f : α → Prog Op Ans β} (hp : p.All P)
    (hf : ∀ a, (f a).All P) : (p >>= f).All P := by
  induction p with
  | ret a => exact hf a
  | op o k ih => exact ⟨hp.1, fun x => ih x (hp.2 x)⟩

theorem all_mono (h : ∀ o, P o → P' o) {p : Prog Op Ans α} (hp : p.All P) : p.All P' := by
  induction p with
  | ret a => trivial
  | op o k ih => exact ⟨h o hp.1, fun x => ih x (hp.2 x)⟩

theorem all_true (p : Prog Op Ans α) : p.All fun _ => True := by
  induction p with
  | ret a => trivial
  | op o k ih => exact ⟨trivial, ih⟩

end Prog

/-! ## Running operations -/

/-- What the operations do.  `step c o s` is the outcome of `o` at `s` under the
choice `c`; `none` means that the choice does not apply.  An operation without any
outcome leaves its task stuck. -/
structure Sem (σ Op : Type) (Ans : Op → Type) where
  Choice : Type
  step : Choice → (o : Op) → σ → Option (Ans o × σ)

/-- One issued operation: the state it met and what it answered. -/
structure Event (σ Op : Type) (Ans : Op → Type) where
  pre : σ
  op : Op
  ans : Ans op

variable {σ : Type}

/-- The run of a program alone under a list of choices: what is left of the program,
the state and the events.  Something left means that the task was stopped there. -/
def exec (S : Sem σ Op Ans) : List S.Choice → Prog Op Ans α → σ →
    Option (Prog Op Ans α × σ × List (Event σ Op Ans))
  | [], p, s => some (p, s, [])
  | _ :: _, .ret _, _ => none
  | c :: cs, .op o k, s =>
    match S.step c o s with
    | none => none
    | some (x, s') => (exec S cs (k x) s').map fun r => (r.1, r.2.1, ⟨s, o, x⟩ :: r.2.2)

theorem exec_op {S : Sem σ Op Ans} {c : S.Choice} {cs : List S.Choice} {o : Op}
    {k : Ans o → Prog Op Ans α} {s : σ} {r : Prog Op Ans α × σ × List (Event σ Op Ans)}
    (h : exec S (c :: cs) (.op o k) s = some r) :
    ∃ x s' es, S.step c o s = some (x, s') ∧ exec S cs (k x) s' = some (r.1, r.2.1, es) ∧
      r.2.2 = ⟨s, o, x⟩ :: es := by
  unfold exec at h
  split at h
  · cases h
  · rename_i x s' hs
    obtain ⟨q, hq, rfl⟩ := Option.map_eq_some_iff.mp h
    exact ⟨x, s', q.2.2, hs, hq, rfl⟩

/-- A run of a sequence is a run of its first part, or ends that part and goes on in the
rest. -/
theorem exec_bind {S : Sem σ Op Ans} {p : Prog Op Ans α} {f : α → Prog Op Ans β}
    {cs : List S.Choice} {s t : σ} {q : Prog Op Ans β} {es : List (Event σ Op Ans)}
    (h : exec S cs (p >>= f) s = some (q, t, es)) :
    (∃ q', exec S cs p s = some (q', t, es)) ∨
      ∃ cs₁ cs₂ a s₁ es₁ es₂, exec S cs₁ p s = some (.ret a, s₁, es₁) ∧
        exec S cs₂ (f a) s₁ = some (q, t, es₂) ∧ es = es₁ ++ es₂ := by
  induction p generalizing cs s es with
  | ret a => exact Or.inr ⟨[], cs, a, s, [], es, rfl, h, rfl⟩
  | op o k ih =>
    cases cs with
    | nil =>
      cases h
      exact Or.inl ⟨.op o k, rfl⟩
    | cons c cs =>
      obtain ⟨x, s', es', hs, hk, he⟩ := exec_op h
      have he : es = ⟨s, o, x⟩ :: es' := he
      subst he
      rcases ih x hk with ⟨q', hq⟩ | ⟨cs₁, cs₂, a, s₁, es₁, es₂, ha, hf, hes⟩
      · refine Or.inl ⟨q', ?_⟩
        simp only [exec, hs, hq, Option.map_some]
      · refine Or.inr ⟨c :: cs₁, cs₂, a, s₁, ⟨s, o, x⟩ :: es₁, es₂, ?_, hf, ?_⟩
        · simp only [exec, hs, ha, Option.map_some]
        · rw [hes, List.cons_append]

/-- The outcome of a run that ended. -/
def result? (S : Sem σ Op Ans) (cs : List S.Choice) (p : Prog Op Ans α) (s : σ) :
    Option (α × σ × List (Event σ Op Ans)) :=
  match exec S cs p s with
  | some (.ret a, r) => some (a, r)
  | _ => none

theorem exec_of_result? {S : Sem σ Op Ans} {cs : List S.Choice} {p : Prog Op Ans α} {s : σ}
    {a : α} {r : σ × List (Event σ Op Ans)} (h : result? S cs p s = some (a, r)) :
    exec S cs p s = some (.ret a, r) := by
  unfold result? at h
  split at h
  · rename_i hx
    cases h
    exact hx
  · cases h

/-- The program, run alone from `s`, can return `a`. -/
def Returns (S : Sem σ Op Ans) (p : Prog Op Ans α) (s : σ) (a : α) : Prop :=
  ∃ cs r, result? S cs p s = some (a, r)

theorem returns_of_result? {S : Sem σ Op Ans} {p : Prog Op Ans α} {s : σ} {a : α}
    (cs : List S.Choice) (h : (result? S cs p s).map (·.1) = some a) : Returns S p s a := by
  obtain ⟨⟨b, r⟩, hr, rfl⟩ := Option.map_eq_some_iff.mp h
  exact ⟨cs, r, hr⟩

theorem returns_ret {S : Sem σ Op Ans} {a b : α} {s : σ} :
    Returns S (.ret a) s b ↔ a = b := by
  constructor
  · rintro ⟨cs, r, h⟩
    cases cs with
    | nil =>
      cases h
      rfl
    | cons c cs => cases h
  · rintro rfl
    exact ⟨[], _, rfl⟩

theorem returns_op {S : Sem σ Op Ans} {o : Op} {k : Ans o → Prog Op Ans α} {s : σ} {a : α} :
    Returns S (.op o k) s a ↔
      ∃ c x s', S.step c o s = some (x, s') ∧ Returns S (k x) s' a := by
  constructor
  · rintro ⟨cs, r, h⟩
    have hx := exec_of_result? h
    cases cs with
    | nil => cases hx
    | cons c cs =>
      obtain ⟨x, s', es, hs, hk, -⟩ := exec_op hx
      refine ⟨c, x, s', hs, cs, (r.1, es), ?_⟩
      rw [result?, hk]
  · rintro ⟨c, x, s', hs, cs, r, h⟩
    have hk := exec_of_result? h
    refine ⟨c :: cs, (r.1, ⟨s, o, x⟩ :: r.2), ?_⟩
    simp [result?, exec, hs, hk]

end Interaction
