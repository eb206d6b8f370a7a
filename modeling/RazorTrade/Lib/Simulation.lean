import Mathlib.Data.List.Forall2
import RazorTrade.Lib.Concurrent

/-! # One system of tasks simulates another

Two systems run the same programs over states of their own.  If related states answer every
operation alike and stay related, and an act around the one is matched by acts around the other
(none, or several), then a run of the first is seen in a run of the second: every task stands at
the same place of its program, after the same answers.

  `Simulates.of_reaches` :  related starts  →  every configuration that the first reaches is
                              related to one that the second reaches -/

namespace Interaction

variable {σ τ Op : Type} {Ans : Op → Type} {ρ ι : Type}

namespace System

/-- Several acts of the environment, one after the other. -/
def envs (S : System σ Op Ans ρ ι) (es : List S.Env) (s : σ) : Option σ :=
  es.foldlM (fun s e => S.env e s) s

/-- `T` does what `S` does under the condition, with `R` between the states. -/
structure Simulates (S : System σ Op Ans ρ ι) (T : System τ Op Ans ρ ι) (C : S.Condition)
    (R : σ → τ → Prop) : Prop where
  program : S.program = T.program
  act : ∀ i o ch x s s' t, R s t → C.act i s o ch → S.sem.step ch o s = some (x, s') →
    ∃ ch' t', T.sem.step ch' o t = some (x, t') ∧ R s' t'
  env : ∀ e s s' t, R s t → C.env s e → S.env e s = some s' →
    ∃ es t', T.envs es t = some t' ∧ R s' t'
  restart : ∀ s t, R s t → C.restart s → R (S.reboot s) (T.reboot t)

end System

/-- The same operation with the same answer, in related states. -/
inductive Event.Related (R : σ → τ → Prop) : Event σ Op Ans → Event τ Op Ans → Prop
  | same {s : σ} {t : τ} (o : Op) (x : Ans o) (h : R s t) : Related R ⟨s, o, x⟩ ⟨t, o, x⟩

/-- The same place of the program, after related events. -/
structure Pass.Related (R : σ → τ → Prop) (p : Pass σ Op Ans ρ) (q : Pass τ Op Ans ρ) : Prop where
  rest : p.rest = q.rest
  events : List.Forall₂ (Event.Related R) p.events q.events

structure Config.Related (R : σ → τ → Prop) (c : Config σ Op Ans ρ ι) (d : Config τ Op Ans ρ ι) :
    Prop where
  state : R c.state d.state
  pass : ∀ i, Option.Rel (Pass.Related R) (c.pass i) (d.pass i)

/-! ## Lemmas -/

section Relation

variable {R : σ → τ → Prop} {c : Config σ Op Ans ρ ι} {d : Config τ Op Ans ρ ι} {i : ι}

theorem Config.related_idle {s : σ} {t : τ} (h : R s t) :
    (Config.idle s : Config σ Op Ans ρ ι).Related R (.idle t) :=
  ⟨h, fun _ => .none⟩

theorem Config.Related.pass_none (h : c.Related R d) (hp : c.pass i = none) : d.pass i = none := by
  have hrel := h.pass i
  rw [hp] at hrel
  cases hrel' : d.pass i with
  | none => rfl
  | some q =>
    rw [hrel'] at hrel
    cases hrel

theorem Config.Related.pass_some {p : Pass σ Op Ans ρ} (h : c.Related R d)
    (hp : c.pass i = some p) : ∃ q, d.pass i = some q ∧ p.Related R q := by
  have hrel := h.pass i
  rw [hp] at hrel
  cases hrel' : d.pass i with
  | none =>
    rw [hrel'] at hrel
    cases hrel
  | some q =>
    rw [hrel'] at hrel
    cases hrel with
    | some hq => exact ⟨q, rfl, hq⟩

/-- Both move task `i` to related places. -/
theorem Config.Related.update [DecidableEq ι] (h : c.Related R d) {s : σ} {t : τ}
    {p : Option (Pass σ Op Ans ρ)} {q : Option (Pass τ Op Ans ρ)} (hs : R s t)
    (hp : Option.Rel (Pass.Related R) p q) :
    (⟨s, Function.update c.pass i p⟩ : Config σ Op Ans ρ ι).Related R
      ⟨t, Function.update d.pass i q⟩ := by
  refine ⟨hs, fun j => ?_⟩
  by_cases hj : j = i
  · subst hj
    simpa using hp
  · simpa [Function.update_of_ne hj] using h.pass j

end Relation

namespace System

variable {S : System σ Op Ans ρ ι} {T : System τ Op Ans ρ ι} {C : S.Condition}
variable {R : σ → τ → Prop} [DecidableEq ι]

/-- Acts of the environment leave the tasks where they are. -/
theorem reaches_envs {es : List T.Env} {d₀ d : Config τ Op Ans ρ ι} {t : τ}
    (h : (Condition.any (S := T)).Reaches d₀ d) (he : T.envs es d.state = some t) :
    (Condition.any (S := T)).Reaches d₀ ⟨t, d.pass⟩ := by
  induction es generalizing d with
  | nil =>
    cases he
    exact h
  | cons e es ih =>
    obtain ⟨t₁, ht₁, he⟩ := Option.bind_eq_some_iff.mp he
    have hs : T.step (.env e) d = some ⟨t₁, d.pass⟩ := by simp [System.step, ht₁]
    exact ih (d := ⟨t₁, d.pass⟩) (.step h (Condition.meets_any d _) hs) he

/-- **Step.** -/
theorem Simulates.step (sim : S.Simulates T C R) {c c' : Config σ Op Ans ρ ι}
    {d₀ d : Config τ Op Ans ρ ι} {l : S.Label} (h : c.Related R d)
    (hd : (Condition.any (S := T)).Reaches d₀ d) (meets : C.Meets c l)
    (hs : S.step l c = some c') :
    ∃ d', (Condition.any (S := T)).Reaches d₀ d' ∧ c'.Related R d' := by
  cases l with
  | start i =>
    simp only [System.step] at hs
    split at hs
    · rename_i hp
      cases hs
      have hstep : T.step (.start i) d =
          some { d with pass := Function.update d.pass i (some ⟨T.program i, []⟩) } := by
        simp [System.step, h.pass_none hp]
      exact ⟨_, .step hd (Condition.meets_any d _) hstep, h.update h.state
        (.some ⟨congrFun sim.program i, .nil⟩)⟩
    · cases hs
  | act i ch =>
    simp only [System.step] at hs
    split at hs
    · rename_i o k tr hp
      obtain ⟨⟨x, s'⟩, hx, rfl⟩ := Option.map_eq_some_iff.mp hs
      obtain ⟨⟨rest, tr'⟩, hq, hrest, hevents⟩ := h.pass_some hp
      cases hrest
      obtain ⟨ch', t', hx', hR⟩ := sim.act i o ch x _ _ _ h.state (meets o k tr hp) hx
      have hstep : T.step (.act i ch') d = some ⟨t',
          Function.update d.pass i (some ⟨k x, tr' ++ [⟨d.state, o, x⟩]⟩)⟩ := by
        simp [System.step, hq, hx']
      exact ⟨_, .step hd (Condition.meets_any d _) hstep, h.update hR
        (.some ⟨rfl, List.rel_append hevents (.cons (.same o x h.state) .nil)⟩)⟩
    · cases hs
  | finish i =>
    simp only [System.step] at hs
    split at hs
    · rename_i v tr hp
      cases hs
      obtain ⟨⟨rest, tr'⟩, hq, hrest, hevents⟩ := h.pass_some hp
      cases hrest
      have hstep : T.step (.finish i) d =
          some { d with pass := Function.update d.pass i none } := by
        simp [System.step, hq]
      exact ⟨_, .step hd (Condition.meets_any d _) hstep, h.update h.state .none⟩
    · cases hs
  | env e =>
    obtain ⟨s', he, rfl⟩ := Option.map_eq_some_iff.mp hs
    obtain ⟨es, t', hes, hR⟩ := sim.env e _ _ _ h.state meets he
    exact ⟨_, reaches_envs hd hes, hR, h.pass⟩
  | restart =>
    cases hs
    have hstep : T.step .restart d = some (.idle (T.reboot d.state)) := rfl
    exact ⟨_, .step hd (Condition.meets_any d _) hstep, Config.related_idle (sim.restart _ _ h.state meets)⟩

/-- **Run.** -/
theorem Simulates.of_reaches (sim : S.Simulates T C R) {s : σ} {t : τ}
    {c : Config σ Op Ans ρ ι} (h₀ : R s t) (h : C.Reaches (.idle s) c) :
    ∃ d, (Condition.any (S := T)).Reaches (.idle t) d ∧ c.Related R d := by
  induction h with
  | refl => exact ⟨_, .refl, Config.related_idle h₀⟩
  | step _ meets hs ih =>
    obtain ⟨d, hd, hrel⟩ := ih
    exact sim.step hrel hd meets hs

end System

end Interaction
