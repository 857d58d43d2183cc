import Ifconfigd.Lib.Dialogue

/-!
# Programs and the machine that answers them

The questions of a program are answered by a machine with a state of its own: in state `s`
the machine can answer `q` by `a` and be in state `t` then. A machine that can answer in
several ways stands for a system whose calls can fail.

`Meets` says what holds whenever a program asks and when it returns, and follows the program
construct by construct; `Meets.reaches` carries it to every state a run comes to.
-/

namespace Dialogue

variable {Q A S α β : Type}

/-- From `p`, with the machine in state `s`, a run can come to this program and state. -/
inductive Reaches (serve : S → Q → A → S → Prop) (s : S) (p : Proc Q A α) :
    S → Proc Q A α → Prop
  | refl : Reaches serve s p s p
  | answer {t t' : S} {q : Q} {a : A} {next : A → Proc Q A α} :
      Reaches serve s p t (.ask q next) → serve t q a t' → Reaches serve s p t' (next a)

namespace Proc

variable (serve : S → Q → A → S → Prop)

/-- Every question is asked in a state with `P`, the program gives up only in a state with
`E`, and a result is returned in one with `R`. -/
def Meets (P : S → Q → Prop) (E : S → Prop) (R : S → α → Prop) : Proc Q A α → S → Prop
  | done a, s => R s a
  | exit, s => E s
  | ask q next, s => P s q ∧ ∀ a t, serve s q a t → (next a).Meets P E R t

variable {serve} {P P' : S → Q → Prop} {E E' : S → Prop} {R R' : S → α → Prop}
variable {U : S → β → Prop} {s : S}

theorem Meets.bind {p : Proc Q A α} {f : α → Proc Q A β} (h : p.Meets serve P E R s)
    (hf : ∀ t a, R t a → (f a).Meets serve P E U t) : (p >>= f).Meets serve P E U s := by
  induction p generalizing s with
  | done a => exact hf s a h
  | exit => exact h
  | ask q next ih => exact ⟨h.1, fun a t ht => ih a (h.2 a t ht)⟩

theorem Meets.mono {p : Proc Q A α} (h : p.Meets serve P E R s) (hP : ∀ t q, P t q → P' t q)
    (hE : ∀ t, E t → E' t) (hR : ∀ t a, R t a → R' t a) : p.Meets serve P' E' R' s := by
  induction p generalizing s with
  | done a => exact hR s a h
  | exit => exact hE s h
  | ask q next ih => exact ⟨hP s q h.1, fun a t ht => ih a (h.2 a t ht)⟩

/-- A program that starts with a question. -/
theorem meets_query_bind {q : Q} {f : A → Proc Q A β} (hq : P s q)
    (hf : ∀ a t, serve s q a t → (f a).Meets serve P E U t) :
    (query q >>= f).Meets serve P E U s :=
  ⟨hq, hf⟩

theorem Meets.reaches {p p' : Proc Q A α} {t : S} (h : p.Meets serve P E R s)
    (hreach : Reaches serve s p t p') : p'.Meets serve P E R t := by
  induction hreach with
  | refl => exact h
  | answer _ hserve ih => exact ih.2 _ _ hserve

/-- A run against a machine that has one answer to each question. -/
def attend (respond : S → Q → A × S) : Nat → S → Proc Q A α → S × Proc Q A α
  | fuel + 1, s, ask q next => attend respond fuel (respond s q).2 (next (respond s q).1)
  | _, s, p => (s, p)

theorem reaches_attend {respond : S → Q → A × S}
    (hserve : ∀ s q, serve s q (respond s q).1 (respond s q).2) (fuel : Nat) {s₀ s : S}
    {p₀ p : Proc Q A α} (h : Reaches serve s₀ p₀ s p) :
    Reaches serve s₀ p₀ (p.attend respond fuel s).1 (p.attend respond fuel s).2 := by
  induction fuel generalizing s p with
  | zero => cases p <;> exact h
  | succ fuel ih =>
      cases p with
      | done a => exact h
      | exit => exact h
      | ask q next => exact ih (h.answer (hserve s q))

end Proc

end Dialogue
