import RazorTrade.Lib.Program

/-! # Safety of a program among other tasks

`Safe S R G Q p tr s`: from state `s`, after the events `tr`, the program `p` only
issues operations allowed by `G` and only ends in a state and with a value in `Q`,
whatever the operations answer and whatever the other tasks do in between, as long
as they stay within `R` (`R` is reflexive and transitive: any number of steps of
the others).  `G` and `Q` see the events so far, so "this operation comes only after
that answer" is a `G`.

Rules: `safe_bind` follows the program, `safe_of_all` skips a part that only issues
operations that keep an assertion, `safe_env` is interference, `safe_mono` weakens.

Main result:

  `safe_exec` :  Safe S R G Q p tr s  →  exec S cs p s = some (q, t, es)  →
                   Safe S R G Q q (tr ++ es) t  ∧  every event of es was allowed by G -/

namespace Interaction

variable {σ Op : Type} {Ans : Op → Type} {α β : Type}

def Safe (S : Sem σ Op Ans) (R : σ → σ → Prop) (G : List (Event σ Op Ans) → σ → Op → Prop)
    (Q : List (Event σ Op Ans) → σ → α → Prop) :
    Prog Op Ans α → List (Event σ Op Ans) → σ → Prop
  | .ret a, tr, s => ∀ s', R s s' → Q tr s' a
  | .op o k, tr, s => ∀ s', R s s' → G tr s' o ∧
      ∀ c x s'', S.step c o s' = some (x, s'') → Safe S R G Q (k x) (tr ++ [⟨s', o, x⟩]) s''

variable {S : Sem σ Op Ans} {R : σ → σ → Prop}
variable {G G' : List (Event σ Op Ans) → σ → Op → Prop}
variable {Q Q' : List (Event σ Op Ans) → σ → α → Prop}
variable {tr : List (Event σ Op Ans)} {s s' : σ}

@[simp] theorem safe_ret (a : α) :
    Safe S R G Q (.ret a) tr s ↔ ∀ s', R s s' → Q tr s' a := Iff.rfl

@[simp] theorem safe_op (o : Op) (k : Ans o → Prog Op Ans α) :
    Safe S R G Q (.op o k) tr s ↔ ∀ s', R s s' → G tr s' o ∧
      ∀ c x s'', S.step c o s' = some (x, s'') → Safe S R G Q (k x) (tr ++ [⟨s', o, x⟩]) s'' :=
  Iff.rfl

theorem safe_mono (hG : ∀ tr s o, G tr s o → G' tr s o) (hQ : ∀ tr s a, Q tr s a → Q' tr s a)
    {p : Prog Op Ans α} (h : Safe S R G Q p tr s) : Safe S R G' Q' p tr s := by
  induction p generalizing tr s with
  | ret a => exact fun s' hs => hQ _ _ _ (h s' hs)
  | op o k ih =>
    intro s' hs
    obtain ⟨hg, hk⟩ := h s' hs
    exact ⟨hG _ _ _ hg, fun c x s'' hx => ih x (hk c x s'' hx)⟩

theorem safe_env (trans : ∀ {a b c}, R a b → R b c → R a c) {p : Prog Op Ans α}
    (h : Safe S R G Q p tr s) (hs : R s s') : Safe S R G Q p tr s' := by
  cases p with
  | ret a => exact fun t ht => h t (trans hs ht)
  | op o k => exact fun t ht => h t (trans hs ht)

/-- Less interference. -/
theorem safe_rely {R' : σ → σ → Prop} (hR : ∀ a b, R' a b → R a b) {p : Prog Op Ans α}
    (h : Safe S R G Q p tr s) : Safe S R' G Q p tr s := by
  induction p generalizing tr s with
  | ret a => exact fun s' hs => h s' (hR _ _ hs)
  | op o k ih =>
    intro s' hs
    obtain ⟨hg, hk⟩ := h s' (hR _ _ hs)
    exact ⟨hg, fun c x s'' hx => ih x (hk c x s'' hx)⟩

/-- Every program is safe when nothing is asked of it. -/
theorem safe_top (p : Prog Op Ans α) (tr : List (Event σ Op Ans)) (s : σ) :
    Safe S R (fun _ _ _ => True) (fun _ _ _ => True) p tr s := by
  induction p generalizing tr s with
  | ret a => exact fun _ _ => trivial
  | op o k ih => exact fun s' _ => ⟨trivial, fun c x s'' _ => ih x _ s''⟩

/-- Two safety arguments about one program, each with its own interference. -/
theorem safe_and {R' : σ → σ → Prop} {p : Prog Op Ans α} (h : Safe S R G Q p tr s)
    (h' : Safe S R' G' Q' p tr s) :
    Safe S (fun a b => R a b ∧ R' a b) (fun tr s o => G tr s o ∧ G' tr s o)
      (fun tr s a => Q tr s a ∧ Q' tr s a) p tr s := by
  induction p generalizing tr s with
  | ret a => exact fun s' hs => ⟨h s' hs.1, h' s' hs.2⟩
  | op o k ih =>
    intro s' hs
    obtain ⟨hg, hk⟩ := h s' hs.1
    obtain ⟨hg', hk'⟩ := h' s' hs.2
    exact ⟨⟨hg, hg'⟩, fun c x s'' hx => ih x (hk c x s'' hx) (hk' c x s'' hx)⟩

/-- **Sequencing.**  The first part must end in states from which the rest is safe. -/
theorem safe_bind (refl : ∀ a, R a a) {Q : List (Event σ Op Ans) → σ → β → Prop}
    {p : Prog Op Ans α} {f : α → Prog Op Ans β}
    (h : Safe S R G (fun tr s a => Safe S R G Q (f a) tr s) p tr s) :
    Safe S R G Q (p >>= f) tr s := by
  induction p generalizing tr s with
  | ret a => exact h s (refl s)
  | op o k ih =>
    intro s' hs
    obtain ⟨hg, hk⟩ := h s' hs
    exact ⟨hg, fun c x s'' hx => ih x (hk c x s'' hx)⟩

/-- A program whose operations all satisfy `P` keeps every assertion that the others
and each `P` operation keep, as far as `G` allows `P` operations there. -/
theorem safe_of_all {P : Op → Prop} {A : List (Event σ Op Ans) → σ → Prop}
    (stable : ∀ tr s s', A tr s → R s s' → A tr s')
    (allowed : ∀ tr s o, P o → A tr s → G tr s o)
    (kept : ∀ tr s o c x s', P o → A tr s → S.step c o s = some (x, s') →
      A (tr ++ [⟨s, o, x⟩]) s')
    {p : Prog Op Ans α} (hp : p.All P) (h : A tr s) :
    Safe S R G (fun tr s _ => A tr s) p tr s := by
  induction p generalizing tr s with
  | ret a => exact fun s' hs => stable _ _ _ h hs
  | op o k ih =>
    intro s' hs
    have h' := stable _ _ _ h hs
    exact ⟨allowed _ _ _ hp.1 h', fun c x s'' hx =>
      ih x (hp.2 x) (kept _ _ _ c x _ hp.1 h' hx)⟩

/-- What the others and every operation keep, every program keeps. -/
theorem safe_kept {B : List (Event σ Op Ans) → σ → Prop}
    (stable : ∀ tr s s', B tr s → R s s' → B tr s')
    (kept : ∀ tr s o c x s', B tr s → S.step c o s = some (x, s') → B (tr ++ [⟨s, o, x⟩]) s')
    (p : Prog Op Ans α) (h : B tr s) :
    Safe S R (fun _ _ _ => True) (fun tr s _ => B tr s) p tr s := by
  induction p generalizing tr s with
  | ret a => exact fun s' hs => stable _ _ _ h hs
  | op o k ih =>
    intro s' hs
    have h' := stable _ _ _ h hs
    exact ⟨trivial, fun c x s'' hx => ih x (kept _ s' o c x s'' h' hx)⟩

/-! ## Runs of the program alone -/

/-- **Safety over a run.**  Every event of a run of a safe program was allowed where
it was issued, and what is left of the program is safe where the run stopped. -/
theorem safe_exec (refl : ∀ a, R a a) {p q : Prog Op Ans α} {cs : List S.Choice} {t : σ}
    {es : List (Event σ Op Ans)} (h : Safe S R G Q p tr s)
    (hx : exec S cs p s = some (q, t, es)) :
    Safe S R G Q q (tr ++ es) t ∧
      ∀ es₁ e es₂, es = es₁ ++ e :: es₂ → G (tr ++ es₁) e.pre e.op := by
  induction cs generalizing p tr s es with
  | nil =>
    simp only [exec, Option.some.injEq, Prod.mk.injEq] at hx
    obtain ⟨rfl, rfl, rfl⟩ := hx
    simpa using h
  | cons c cs ih =>
    cases p with
    | ret a => cases hx
    | op o k =>
      obtain ⟨x, s', es', hs, hk, rfl⟩ := exec_op hx
      obtain ⟨hg, hnext⟩ := h s (refl s)
      obtain ⟨hq, hall⟩ := ih (hnext c x s' hs) hk
      refine ⟨by simpa using hq, fun es₁ e es₂ he => ?_⟩
      cases es₁ with
      | nil =>
        obtain ⟨rfl, rfl⟩ := List.cons.inj he
        simpa using hg
      | cons e₁ es₁ =>
        obtain ⟨rfl, he'⟩ := List.cons.inj he
        simpa using hall es₁ e es₂ he'

/-- The value a finished run returns, with its state and events, is in `Q`. -/
theorem safe_exec_ret (refl : ∀ a, R a a) {p : Prog Op Ans α} {cs : List S.Choice} {t : σ}
    {a : α} {es : List (Event σ Op Ans)} (h : Safe S R G Q p tr s)
    (hx : exec S cs p s = some (.ret a, t, es)) : Q (tr ++ es) t a :=
  (safe_exec refl h hx).1 t (refl t)

end Interaction
