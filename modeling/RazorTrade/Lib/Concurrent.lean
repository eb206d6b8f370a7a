import Mathlib.Logic.Function.Basic
import RazorTrade.Lib.Safety

/-! # Tasks that interleave over one state

A `System` has tasks, each of which runs its program again and again (a `Pass`), an
environment and a restart that drops every pass.  A step (`Label`) begins a pass,
performs the next operation of one, ends one, lets the environment act, or restarts.
Nothing else limits the order of the steps.

A `Condition` restricts the steps of a run.  A `Contract` says what each task relies
on and guarantees while the others run.

A contract may be proved over another one (`ValidOver`, `Valid.and`).

Main results:

  `hold_of_reaches`    :  Valid contract, Holds at the start  →  Holds in every
                            configuration that a run under the condition reaches
  `guarantee_of_reaches` :  … and every operation about to be issued is allowed by `G` -/

namespace Interaction

/-- What is left of a task's program, and what it did so far. -/
structure Pass (σ Op : Type) (Ans : Op → Type) (ρ : Type) where
  rest : Prog Op Ans ρ
  events : List (Event σ Op Ans)

structure System (σ Op : Type) (Ans : Op → Type) (ρ ι : Type) where
  sem : Sem σ Op Ans
  program : ι → Prog Op Ans ρ
  Env : Type
  env : Env → σ → Option σ
  reboot : σ → σ

structure Config (σ Op : Type) (Ans : Op → Type) (ρ ι : Type) where
  state : σ
  pass : ι → Option (Pass σ Op Ans ρ)

variable {σ Op : Type} {Ans : Op → Type} {ρ ι : Type}

/-- Every task idle. -/
def Config.idle (s : σ) : Config σ Op Ans ρ ι := ⟨s, fun _ => none⟩

namespace System

variable (S : System σ Op Ans ρ ι)

inductive Label where
  | start (i : ι)
  | act (i : ι) (c : S.sem.Choice)
  | finish (i : ι)
  | env (e : S.Env)
  | restart

/-! ## Conditions on the steps -/

/-- A condition on every step of a run. -/
structure Condition where
  act : ι → σ → Op → S.sem.Choice → Prop := fun _ _ _ _ => True
  finish : ι → List (Event σ Op Ans) → ρ → Prop := fun _ _ _ => True
  env : σ → S.Env → Prop := fun _ _ => True
  restart : σ → Prop := fun _ => True

variable {S}

/-- The step meets the condition. -/
def Condition.Meets (C : S.Condition) (c : Config σ Op Ans ρ ι) : S.Label → Prop
  | .start _ => True
  | .act i ch => ∀ o k tr, c.pass i = some ⟨.op o k, tr⟩ → C.act i c.state o ch
  | .finish i => ∀ v tr, c.pass i = some ⟨.ret v, tr⟩ → C.finish i tr v
  | .env e => C.env c.state e
  | .restart => C.restart c.state

/-- No condition. -/
def Condition.any : S.Condition := {}

theorem Condition.meets_any (c : Config σ Op Ans ρ ι) (l : S.Label) :
    (Condition.any (S := S)).Meets c l := by
  cases l <;> simp [Meets, any]

/-- A condition that can be tested at every step. -/
class Condition.Testable (C : S.Condition) where
  act : ∀ i s o ch, Decidable (C.act i s o ch)
  finish : ∀ i tr v, Decidable (C.finish i tr v)
  env : ∀ s e, Decidable (C.env s e)
  restart : ∀ s, Decidable (C.restart s)

def Condition.test (C : S.Condition) [T : C.Testable] (c : Config σ Op Ans ρ ι) : S.Label → Bool
  | .start _ => true
  | .act i ch =>
    match c.pass i with
    | some ⟨.op o _, _⟩ => @decide (C.act i c.state o ch) (T.act i c.state o ch)
    | _ => true
  | .finish i =>
    match c.pass i with
    | some ⟨.ret v, tr⟩ => @decide (C.finish i tr v) (T.finish i tr v)
    | _ => true
  | .env e => @decide (C.env c.state e) (T.env c.state e)
  | .restart => @decide (C.restart c.state) (T.restart c.state)

theorem Condition.meets_of_test {C : S.Condition} [T : C.Testable] {c : Config σ Op Ans ρ ι}
    {l : S.Label} (h : C.test c l = true) : C.Meets c l := by
  cases l with
  | start i => trivial
  | act i ch =>
    intro o k tr hp
    simp only [test, hp] at h
    exact @of_decide_eq_true _ (T.act ..) h
  | finish i =>
    intro v tr hp
    simp only [test, hp] at h
    exact @of_decide_eq_true _ (T.finish ..) h
  | env e => exact @of_decide_eq_true _ (T.env ..) h
  | restart => exact @of_decide_eq_true _ (T.restart ..) h

/-! ## Steps and runs -/

variable [DecidableEq ι]

variable (S) in
def step : S.Label → Config σ Op Ans ρ ι → Option (Config σ Op Ans ρ ι)
  | .start i, c =>
    match c.pass i with
    | none => some { c with pass := Function.update c.pass i (some ⟨S.program i, []⟩) }
    | some _ => none
  | .act i ch, c =>
    match c.pass i with
    | some ⟨.op o k, tr⟩ =>
      (S.sem.step ch o c.state).map fun r =>
        ⟨r.2, Function.update c.pass i (some ⟨k r.1, tr ++ [⟨c.state, o, r.1⟩]⟩)⟩
    | _ => none
  | .finish i, c =>
    match c.pass i with
    | some ⟨.ret _, _⟩ => some { c with pass := Function.update c.pass i none }
    | _ => none
  | .env e, c => (S.env e c.state).map fun s => { c with state := s }
  | .restart, c => some (.idle (S.reboot c.state))

variable (S) in
def run : List S.Label → Config σ Op Ans ρ ι → Option (Config σ Op Ans ρ ι)
  | [], c => some c
  | l :: ls, c => (S.step l c).bind (run ls)

/-- The configurations that runs under the condition reach. -/
inductive Condition.Reaches (C : S.Condition) (c₀ : Config σ Op Ans ρ ι) :
    Config σ Op Ans ρ ι → Prop
  | refl : C.Reaches c₀ c₀
  | step {c c' : Config σ Op Ans ρ ι} {l : S.Label} (h : C.Reaches c₀ c) (meets : C.Meets c l)
      (hs : S.step l c = some c') : C.Reaches c₀ c'

theorem reaches_run {c₀ c c' : Config σ Op Ans ρ ι} {ls : List S.Label}
    (h : (Condition.any (S := S)).Reaches c₀ c) (hr : S.run ls c = some c') :
    (Condition.any (S := S)).Reaches c₀ c' := by
  induction ls generalizing c with
  | nil => cases hr; exact h
  | cons l ls ih =>
    obtain ⟨d, hd, hr⟩ := Option.bind_eq_some_iff.mp hr
    exact ih (.step h (Condition.meets_any c l) hd) hr

/-- A run that stops where the condition is not met. -/
def Condition.runTested (C : S.Condition) [C.Testable] :
    List S.Label → Config σ Op Ans ρ ι → Option (Config σ Op Ans ρ ι)
  | [], c => some c
  | l :: ls, c => if C.test c l then (S.step l c).bind (C.runTested ls) else none

theorem Condition.reaches_runTested {C : S.Condition} [C.Testable] {c₀ c c' : Config σ Op Ans ρ ι}
    {ls : List S.Label} (h : C.Reaches c₀ c) (hr : C.runTested ls c = some c') :
    C.Reaches c₀ c' := by
  induction ls generalizing c with
  | nil =>
    cases hr
    exact h
  | cons l ls ih =>
    simp only [runTested] at hr
    split at hr
    · rename_i ht
      obtain ⟨d, hd, hr⟩ := Option.bind_eq_some_iff.mp hr
      exact ih (.step h (meets_of_test ht) hd) hr
    · cases hr

theorem Condition.Reaches.trans {C : S.Condition} {c₀ c c' : Config σ Op Ans ρ ι}
    (h : C.Reaches c₀ c) (h' : C.Reaches c c') : C.Reaches c₀ c' := by
  induction h' with
  | refl => exact h
  | step _ meets hs ih => exact .step ih meets hs

/-- A condition that asks for less leaves more runs. -/
theorem Condition.Reaches.mono {C C' : S.Condition} {c₀ c : Config σ Op Ans ρ ι}
    (h : C.Reaches c₀ c)
    (hC : ∀ (c : Config σ Op Ans ρ ι) (l : S.Label), C.Meets c l → C'.Meets c l) :
    C'.Reaches c₀ c := by
  induction h with
  | refl => exact .refl
  | step _ meets hs ih => exact .step ih (hC _ _ meets) hs

/-- What a run under a condition reaches, a run without one reaches too. -/
theorem Condition.reaches_any {C : S.Condition} {c₀ c : Config σ Op Ans ρ ι}
    (h : C.Reaches c₀ c) : (Condition.any (S := S)).Reaches c₀ c :=
  h.mono fun c l _ => meets_any c l

/-- What every operation, the environment and a restart keep, a step keeps. -/
theorem step_keeps {C : S.Condition} {I : σ → Prop} {c c' : Config σ Op Ans ρ ι} {l : S.Label}
    (act : ∀ i o k tr ch x s', c.pass i = some ⟨.op o k, tr⟩ → C.act i c.state o ch →
      S.sem.step ch o c.state = some (x, s') → I s')
    (env : ∀ e s', C.env c.state e → S.env e c.state = some s' → I s')
    (restart : C.restart c.state → I (S.reboot c.state))
    (meets : C.Meets c l) (hs : S.step l c = some c') (h : I c.state) : I c'.state := by
  cases l with
  | start i =>
    simp only [System.step] at hs
    split at hs <;> cases hs
    exact h
  | act i ch =>
    simp only [System.step] at hs
    split at hs
    · rename_i o k tr hp
      obtain ⟨r, hr, rfl⟩ := Option.map_eq_some_iff.mp hs
      exact act i o k tr ch r.1 r.2 hp (meets o k tr hp) hr
    · cases hs
  | finish i =>
    simp only [System.step] at hs
    split at hs <;> cases hs
    exact h
  | env e =>
    obtain ⟨s, hs', rfl⟩ := Option.map_eq_some_iff.mp hs
    exact env e s meets hs'
  | restart =>
    cases hs
    exact restart meets

/-- A state assertion holds throughout a run, if every operation that a task of a reachable
configuration issues keeps it, and so do the environment and a restart. -/
theorem invariant_of_steps {C : S.Condition} {I : σ → Prop} {c₀ c : Config σ Op Ans ρ ι}
    (act : ∀ {c : Config σ Op Ans ρ ι} {i o k tr ch x s'}, C.Reaches c₀ c →
      c.pass i = some ⟨.op o k, tr⟩ → I c.state → C.act i c.state o ch →
      S.sem.step ch o c.state = some (x, s') → I s')
    (env : ∀ {c : Config σ Op Ans ρ ι} {e s'}, C.Reaches c₀ c → I c.state → C.env c.state e →
      S.env e c.state = some s' → I s')
    (restart : ∀ {c : Config σ Op Ans ρ ι}, C.Reaches c₀ c → I c.state → C.restart c.state →
      I (S.reboot c.state))
    (h : C.Reaches c₀ c) (h₀ : I c₀.state) : I c.state := by
  induction h with
  | refl => exact h₀
  | step h meets hs ih =>
    exact step_keeps (fun _ _ _ _ _ _ _ hp => act h hp ih) (fun _ _ => env h ih) (restart h ih)
      meets hs ih

/-- … in particular one that they keep whoever issues them. -/
theorem invariant_of_reaches {C : S.Condition} {I : σ → Prop}
    (act : ∀ i s o ch x s', I s → C.act i s o ch → S.sem.step ch o s = some (x, s') → I s')
    (env : ∀ e s s', I s → C.env s e → S.env e s = some s' → I s')
    (restart : ∀ s, I s → C.restart s → I (S.reboot s))
    {c₀ c : Config σ Op Ans ρ ι} (h : C.Reaches c₀ c) (h₀ : I c₀.state) : I c.state :=
  invariant_of_steps (fun _ _ => act _ _ _ _ _ _) (fun _ => env _ _ _) (fun _ => restart _) h h₀

end System

/-! ## Contracts -/

open Classical in
/-- The outcomes that the condition leaves. -/
noncomputable def Sem.restrict (S : Sem σ Op Ans) (P : σ → Op → S.Choice → Prop) :
    Sem σ Op Ans where
  Choice := S.Choice
  step c o s := if P s o c then S.step c o s else none

theorem Sem.restrict_step {S : Sem σ Op Ans} {P : σ → Op → S.Choice → Prop} {c : S.Choice}
    {o : Op} {s : σ} {r : Ans o × σ} :
    (S.restrict P).step c o s = some r ↔ P s o c ∧ S.step c o s = some r := by
  unfold restrict
  by_cases h : P s o c
  · simp [h]
  · simp [h]

/-- Safety under every choice is safety under the choices that the condition leaves. -/
theorem safe_restrict {S : Sem σ Op Ans} {P : σ → Op → S.Choice → Prop} {R : σ → σ → Prop}
    {G : List (Event σ Op Ans) → σ → Op → Prop} {α : Type}
    {Q : List (Event σ Op Ans) → σ → α → Prop} {p : Prog Op Ans α} {tr : List (Event σ Op Ans)}
    {s : σ} (h : Safe S R G Q p tr s) : Safe (S.restrict P) R G Q p tr s := by
  induction p generalizing tr s with
  | ret a => exact h
  | op o k ih =>
    intro s' hs
    obtain ⟨hg, hk⟩ := h s' hs
    exact ⟨hg, fun c x s'' hx => ih x (hk c x s'' (Sem.restrict_step.mp hx).2)⟩

/-- What each task relies on (`R`), guarantees (`G`) and ends with (`Q`); `Inv` holds
always and `Idle` while the task is between two passes. -/
structure Contract (σ Op : Type) (Ans : Op → Type) (ρ ι : Type) where
  Inv : σ → Prop
  Idle : ι → σ → Prop := fun _ _ => True
  R : ι → σ → σ → Prop
  G : ι → List (Event σ Op Ans) → σ → Op → Prop
  Q : ι → List (Event σ Op Ans) → σ → ρ → Prop := fun _ _ _ _ => True

namespace Contract

variable {S : System σ Op Ans ρ ι} (K : Contract σ Op Ans ρ ι)

/-- The program of task `i` is safe under the contract. -/
def SafeFor (C : S.Condition) (i : ι) (p : Prog Op Ans ρ) (tr : List (Event σ Op Ans))
    (s : σ) : Prop :=
  Safe (S.sem.restrict (C.act i)) (K.R i) (K.G i) (K.Q i) p tr s

structure Valid (C : S.Condition) : Prop where
  refl : ∀ i s, K.R i s s
  trans : ∀ i {a b c}, K.R i a b → K.R i b c → K.R i a c
  stable : ∀ i {s s'}, K.Idle i s → K.R i s s' → K.Idle i s'
  start : ∀ i s, K.Inv s → K.Idle i s → K.SafeFor C i (S.program i) [] s
  act : ∀ i tr s o ch x s', K.Inv s → K.G i tr s o → C.act i s o ch →
    S.sem.step ch o s = some (x, s') → K.Inv s' ∧ ∀ j, j ≠ i → K.R j s s'
  finish : ∀ i tr s v, K.Inv s → K.Q i tr s v → C.finish i tr v → K.Idle i s
  env : ∀ e s s', K.Inv s → C.env s e → S.env e s = some s' → K.Inv s' ∧ ∀ i, K.R i s s'
  restart : ∀ s, K.Inv s → C.restart s → K.Inv (S.reboot s) ∧ ∀ i, K.Idle i (S.reboot s)

/-- The part of the contract that is about task `i`. -/
def TaskHolds (C : S.Condition) (i : ι) (s : σ) : Option (Pass σ Op Ans ρ) → Prop
  | none => K.Idle i s
  | some p => K.SafeFor C i p.rest p.events s

/-- The contract holds in a configuration. -/
def Holds (C : S.Condition) (c : Config σ Op Ans ρ ι) : Prop :=
  K.Inv c.state ∧ ∀ i, K.TaskHolds C i c.state (c.pass i)

variable {K} {C : S.Condition}

theorem Holds.idle {c : Config σ Op Ans ρ ι} (h : K.Holds C c) {i : ι} (hp : c.pass i = none) :
    K.Idle i c.state := by
  have hi := h.2 i
  rwa [hp] at hi

theorem Holds.pass {c : Config σ Op Ans ρ ι} (h : K.Holds C c) {i : ι} {p : Pass σ Op Ans ρ}
    (hp : c.pass i = some p) : K.SafeFor C i p.rest p.events c.state := by
  have hi := h.2 i
  rwa [hp] at hi

theorem holds_idle {s : σ} (hInv : K.Inv s) (hIdle : ∀ i, K.Idle i s) :
    K.Holds C (Config.idle s) := ⟨hInv, hIdle⟩

/-- A task keeps its part of the contract under the steps of the others. -/
theorem TaskHolds.frame (V : K.Valid C) {i : ι} {s s' : σ} {p : Option (Pass σ Op Ans ρ)}
    (h : K.TaskHolds C i s p) (hs : K.R i s s') : K.TaskHolds C i s' p := by
  cases p with
  | none => exact V.stable i h hs
  | some p =>
    refine safe_env ?_ h hs
    exact V.trans i

/-- The contract when one task has moved and the others have been interfered with. -/
theorem Holds.update [DecidableEq ι] (V : K.Valid C) {c : Config σ Op Ans ρ ι}
    (h : K.Holds C c) {s : σ} {i : ι} {p : Option (Pass σ Op Ans ρ)} (hInv : K.Inv s)
    (hR : ∀ j, j ≠ i → K.R j c.state s) (hi : K.TaskHolds C i s p) :
    K.Holds C ⟨s, Function.update c.pass i p⟩ := by
  refine ⟨hInv, fun j => ?_⟩
  by_cases hj : j = i
  · subst hj
    simpa using hi
  · simpa [Function.update_of_ne hj] using (h.2 j).frame V (hR j hj)

/-! ### A contract over another

A second contract may use what a first one guarantees: `K.ValidOver L C` is `K.Valid C`
with the invariant and the guarantees of `L` at hand. -/

/-- Both contracts at once. -/
def and (L K : Contract σ Op Ans ρ ι) : Contract σ Op Ans ρ ι where
  Inv s := L.Inv s ∧ K.Inv s
  Idle i s := L.Idle i s ∧ K.Idle i s
  R i s s' := L.R i s s' ∧ K.R i s s'
  G i tr s o := L.G i tr s o ∧ K.G i tr s o
  Q i tr s v := L.Q i tr s v ∧ K.Q i tr s v

structure ValidOver (L K : Contract σ Op Ans ρ ι) (C : S.Condition) : Prop where
  refl : ∀ i s, K.R i s s
  trans : ∀ i {a b c}, K.R i a b → K.R i b c → K.R i a c
  stable : ∀ i {s s'}, K.Idle i s → K.R i s s' → K.Idle i s'
  start : ∀ i s, L.Inv s → K.Inv s → K.Idle i s → K.SafeFor C i (S.program i) [] s
  act : ∀ i tr s o ch x s', L.Inv s → L.G i tr s o → K.Inv s → K.G i tr s o → C.act i s o ch →
    S.sem.step ch o s = some (x, s') → K.Inv s' ∧ ∀ j, j ≠ i → K.R j s s'
  finish : ∀ i tr s v, K.Inv s → K.Q i tr s v → C.finish i tr v → K.Idle i s
  env : ∀ e s s', L.Inv s → K.Inv s → C.env s e → S.env e s = some s' →
    K.Inv s' ∧ ∀ i, K.R i s s'
  restart : ∀ s, L.Inv s → K.Inv s → C.restart s →
    K.Inv (S.reboot s) ∧ ∀ i, K.Idle i (S.reboot s)

theorem Valid.and {L K : Contract σ Op Ans ρ ι} (hL : L.Valid C) (hK : ValidOver L K C) :
    (L.and K).Valid C where
  refl := fun i s => ⟨hL.refl i s, hK.refl i s⟩
  trans := fun i _ _ _ h h' => ⟨hL.trans i h.1 h'.1, hK.trans i h.2 h'.2⟩
  stable := fun i _ _ h h' => ⟨hL.stable i h.1 h'.1, hK.stable i h.2 h'.2⟩
  start := fun i s h h' => safe_and (hL.start i s h.1 h'.1) (hK.start i s h.1 h.2 h'.2)
  act := by
    intro i tr s o ch x s' h hG hc hs
    obtain ⟨hInv, hR⟩ := hL.act i tr s o ch x s' h.1 hG.1 hc hs
    obtain ⟨hInv', hR'⟩ := hK.act i tr s o ch x s' h.1 hG.1 h.2 hG.2 hc hs
    exact ⟨⟨hInv, hInv'⟩, fun j hj => ⟨hR j hj, hR' j hj⟩⟩
  finish := fun i tr s v h hQ hc => ⟨hL.finish i tr s v h.1 hQ.1 hc, hK.finish i tr s v h.2 hQ.2 hc⟩
  env := by
    intro e s s' h hc hs
    obtain ⟨hInv, hR⟩ := hL.env e s s' h.1 hc hs
    obtain ⟨hInv', hR'⟩ := hK.env e s s' h.1 h.2 hc hs
    exact ⟨⟨hInv, hInv'⟩, fun i => ⟨hR i, hR' i⟩⟩
  restart := by
    intro s h hc
    obtain ⟨hInv, hIdle⟩ := hL.restart s h.1 hc
    obtain ⟨hInv', hIdle'⟩ := hK.restart s h.1 h.2 hc
    exact ⟨⟨hInv, hInv'⟩, fun i => ⟨hIdle i, hIdle' i⟩⟩

/-! ### Runs -/

variable [DecidableEq ι]

/-- **Step.**  A step that meets the condition keeps the contract. -/
theorem Holds.step (V : K.Valid C) {c c' : Config σ Op Ans ρ ι} {l : S.Label} (h : K.Holds C c)
    (meets : C.Meets c l) (hs : S.step l c = some c') : K.Holds C c' := by
  have refl : ∀ j, K.R j c.state c.state := fun j => V.refl j c.state
  cases l with
  | start i =>
    simp only [System.step] at hs
    split at hs
    · rename_i hp
      cases hs
      exact h.update V h.1 (fun j _ => refl j) (V.start i c.state h.1 (h.idle hp))
    · cases hs
  | act i ch =>
    simp only [System.step] at hs
    split at hs
    · rename_i o k tr hp
      obtain ⟨⟨x, s'⟩, hr, rfl⟩ := Option.map_eq_some_iff.mp hs
      have hc := meets o k tr hp
      obtain ⟨hG, hk⟩ := h.pass hp c.state (refl i)
      obtain ⟨hInv, hR⟩ := V.act i tr c.state o ch x s' h.1 hG hc hr
      exact h.update V hInv hR (hk ch x s' (Sem.restrict_step.mpr ⟨hc, hr⟩))
    · cases hs
  | finish i =>
    simp only [System.step] at hs
    split at hs
    · rename_i v tr hp
      cases hs
      have hQ := h.pass hp c.state (refl i)
      exact h.update V h.1 (fun j _ => refl j) (V.finish i tr c.state v h.1 hQ (meets v tr hp))
    · cases hs
  | env e =>
    obtain ⟨s, hs', rfl⟩ := Option.map_eq_some_iff.mp hs
    obtain ⟨hInv, hR⟩ := V.env e c.state s h.1 meets hs'
    exact ⟨hInv, fun i => (h.2 i).frame V (hR i)⟩
  | restart =>
    cases hs
    obtain ⟨hInv, hIdle⟩ := V.restart c.state h.1 meets
    exact ⟨hInv, fun i => hIdle i⟩

/-- **Run.**  The contract holds in every configuration that a run under the condition
reaches. -/
theorem hold_of_reaches (V : K.Valid C) {c₀ c : Config σ Op Ans ρ ι} (h₀ : K.Holds C c₀)
    (h : C.Reaches c₀ c) : K.Holds C c := by
  induction h with
  | refl => exact h₀
  | step _ meets hs ih => exact ih.step V meets hs

/-- In every reachable configuration each operation about to be issued is guaranteed. -/
theorem guarantee_of_reaches (V : K.Valid C) {c₀ c : Config σ Op Ans ρ ι}
    (h₀ : K.Holds C c₀) (h : C.Reaches c₀ c) {i : ι} {o : Op} {k : Ans o → Prog Op Ans ρ}
    {tr : List (Event σ Op Ans)} (hp : c.pass i = some ⟨.op o k, tr⟩) : K.G i tr c.state o :=
  (((hold_of_reaches V h₀ h).pass hp) c.state (V.refl i c.state)).1

/-- In every reachable configuration a pass that is at its end has its postcondition. -/
theorem post_of_reaches (V : K.Valid C) {c₀ c : Config σ Op Ans ρ ι}
    (h₀ : K.Holds C c₀) (h : C.Reaches c₀ c) {i : ι} {v : ρ} {tr : List (Event σ Op Ans)}
    (hp : c.pass i = some ⟨.ret v, tr⟩) : K.Q i tr c.state v :=
  ((hold_of_reaches V h₀ h).pass hp) c.state (V.refl i c.state)

end Contract

end Interaction
