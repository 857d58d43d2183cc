import Mathlib.Logic.Basic

/-!
# Programs that ask questions

A program that talks to an environment: it returns, gives up, or asks a question and
goes on with the answer. A run against a list of answers shows the questions asked up
to the point where the answers end. `Keeps` is the rule for facts about all questions
and results of a program, whatever the answers are.
-/

namespace Dialogue

/-- A program with questions `Q`, answers `A` and results `α`. -/
inductive Proc (Q A α : Type)
  | done (a : α)
  | exit
  | ask (q : Q) (next : A → Proc Q A α)

/-- How a run ends. -/
inductive Outcome (A α : Type)
  /-- The last question has no answer yet. -/
  | waiting
  | exited
  /-- It returned, with these answers left. -/
  | returned (a : α) (rest : List A)
  deriving DecidableEq

namespace Proc

variable {Q A α β : Type}

def bind : Proc Q A α → (α → Proc Q A β) → Proc Q A β
  | done a, f => f a
  | exit, _ => exit
  | ask q next, f => ask q fun a => (next a).bind f

instance : Monad (Proc Q A) where
  pure := done
  bind := bind

/-- Ask one question. -/
def query (q : Q) : Proc Q A A := ask q done

/-- Give up where there is no value. -/
def ofOption : Option α → Proc Q A α
  | some a => done a
  | none => exit

/-- The questions asked, and how the run ends. -/
def run : Proc Q A α → List A → List Q × Outcome A α
  | done a, answers => ([], .returned a answers)
  | exit, _ => ([], .exited)
  | ask q _, [] => ([q], .waiting)
  | ask q next, a :: answers => (q :: ((next a).run answers).1, ((next a).run answers).2)

/-- Every question satisfies `P` and every result `R`. -/
def Keeps (P : Q → Prop) (R : α → Prop) : Proc Q A α → Prop
  | done a => R a
  | exit => True
  | ask q next => P q ∧ ∀ a, (next a).Keeps P R

variable {P : Q → Prop} {R : α → Prop} {S : β → Prop}

@[simp] theorem keeps_done (a : α) : (done a : Proc Q A α).Keeps P R ↔ R a := Iff.rfl

@[simp] theorem keeps_pure (a : α) : (pure a : Proc Q A α).Keeps P R ↔ R a := Iff.rfl

@[simp] theorem keeps_exit : (exit : Proc Q A α).Keeps P R := trivial

@[simp] theorem keeps_ask (q : Q) (next : A → Proc Q A α) :
    (ask q next).Keeps P R ↔ P q ∧ ∀ a, (next a).Keeps P R := Iff.rfl

@[simp] theorem keeps_ofOption (o : Option α) :
    (ofOption o : Proc Q A α).Keeps P R ↔ ∀ a, o = some a → R a := by
  cases o with
  | none => exact iff_of_true trivial fun a h => by cases h
  | some b => exact ⟨fun h a ha => Option.some.inj ha ▸ h, fun h => h b rfl⟩

/-- A program that starts with a question. -/
theorem keeps_query_bind {q : Q} {f : A → Proc Q A β} (hq : P q)
    (hf : ∀ a, (f a).Keeps P S) : (query q >>= f).Keeps P S :=
  ⟨hq, hf⟩

/-- A program that starts with a value that may be missing. -/
theorem keeps_ofOption_bind {o : Option α} {f : α → Proc Q A β}
    (hf : ∀ a, o = some a → (f a).Keeps P S) : (ofOption o >>= f).Keeps P S := by
  cases o with
  | none => trivial
  | some a => exact hf a rfl

/-- Nothing is asked of a program that may do anything. -/
theorem keeps_true (p : Proc Q A α) : p.Keeps (fun _ => True) fun _ => True := by
  induction p with
  | done a => trivial
  | exit => trivial
  | ask q next ih => exact ⟨trivial, ih⟩

theorem Keeps.mono {p : Proc Q A α} {P' : Q → Prop} {R' : α → Prop} (h : p.Keeps P R)
    (hP : ∀ q, P q → P' q) (hR : ∀ a, R a → R' a) : p.Keeps P' R' := by
  induction p with
  | done a => exact hR a h
  | exit => trivial
  | ask q next ih => exact ⟨hP q h.1, fun a => ih a (h.2 a)⟩

theorem Keeps.bind {p : Proc Q A α} {f : α → Proc Q A β} (h : p.Keeps P R)
    (hf : ∀ a, R a → (f a).Keeps P S) : (p >>= f).Keeps P S := by
  induction p with
  | done a => exact hf a h
  | exit => trivial
  | ask q next ih => exact ⟨h.1, fun a => ih a (h.2 a)⟩

/-- A loop over a list keeps an invariant that each round keeps. -/
theorem Keeps.foldlM {ι : Type} {f : α → ι → Proc Q A α} {l : List ι}
    (hf : ∀ i ∈ l, ∀ a, R a → (f a i).Keeps P R) {a : α} (h : R a) :
    (l.foldlM f a).Keeps P R := by
  induction l generalizing a with
  | nil => exact h
  | cons i l ih =>
      rw [List.foldlM_cons]
      exact (hf i List.mem_cons_self a h).bind fun b hb =>
        ih (fun j hj => hf j (List.mem_cons_of_mem i hj)) hb

/-- A program that returns lets the rest run on the answers it left. -/
theorem run_bind_of_returned {p : Proc Q A α} {f : α → Proc Q A β} {answers rest : List A}
    {qs : List Q} {a : α} (h : p.run answers = (qs, .returned a rest)) :
    (p >>= f).run answers = (qs ++ ((f a).run rest).1, ((f a).run rest).2) := by
  induction p generalizing answers qs with
  | done b =>
      obtain ⟨rfl, hb⟩ := Prod.mk.inj h
      obtain ⟨rfl, rfl⟩ := Outcome.returned.inj hb
      rfl
  | exit => cases (Prod.mk.inj h).2
  | ask q next ih =>
      cases answers with
      | nil => cases (Prod.mk.inj h).2
      | cons b answers =>
          obtain ⟨rfl, hb⟩ := Prod.mk.inj h
          have hnext := ih b (Prod.ext rfl hb)
          have hrun : (ask q next >>= f).run (b :: answers) =
              (q :: ((next b >>= f).run answers).1, ((next b >>= f).run answers).2) := rfl
          rw [hrun, hnext, List.cons_append]

/-- What a run shows of a program that keeps `P` and `R`. -/
theorem Keeps.run {p : Proc Q A α} (h : p.Keeps P R) (answers : List A) :
    (∀ q ∈ (p.run answers).1, P q) ∧
      ∀ a rest, (p.run answers).2 = .returned a rest → R a := by
  induction p generalizing answers with
  | done a =>
      refine ⟨by simp [Proc.run], fun b rest hb => ?_⟩
      obtain ⟨rfl, -⟩ := Outcome.returned.inj hb
      exact h
  | exit => exact ⟨by simp [Proc.run], fun b rest hb => by cases hb⟩
  | ask q next ih =>
      cases answers with
      | nil => exact ⟨by simpa [Proc.run] using h.1, fun b rest hb => by cases hb⟩
      | cons a answers =>
          obtain ⟨hasked, hreturned⟩ := ih a (h.2 a) answers
          exact ⟨by simpa [Proc.run] using ⟨h.1, hasked⟩, hreturned⟩

end Proc

end Dialogue
