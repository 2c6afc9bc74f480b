import Mathlib.Tactic.Lemma

/-!
# Sessions: operations one after another

A container that changes is used in sessions: it performs one operation after another, and each
operation gives an answer.  What a container is for is said by a relation on a simpler state,
`step s op answer t`: in state `s` the operation may answer so and leave `t`.

* `session perform` performs a list of operations and collects the answers.
* `Conforms step` says that a list of answers is one that the relation allows.
* `Simulates` compares one operation of the container with one step of the relation, and
  `Simulates.conforms` concludes from it about whole sessions.
* `Conforms.unique`: if the relation leaves no choice, it fixes all answers, so that two containers
  that simulate it cannot be told apart.
-/

namespace CodeSift

variable {κ σ ω α : Type}

/-- Performs the operations one after another: their answers, and what the container is in the
end. -/
def session (perform : κ → ω → α × κ) : κ → List ω → List α × κ
  | k, [] => ([], k)
  | k, op :: ops =>
    let rest := session perform (perform k op).2 ops
    ((perform k op).1 :: rest.1, rest.2)

/-- From the one state the operations, with these answers, may lead to the other. -/
inductive Conforms (step : σ → ω → α → σ → Prop) : σ → List ω → List α → σ → Prop
  | nil (s : σ) : Conforms step s [] [] s
  | cons {s t u : σ} {op : ω} {answer : α} {ops : List ω} {answers : List α}
      (first : step s op answer t) (rest : Conforms step t ops answers u) :
      Conforms step s (op :: ops) (answer :: answers) u

/-- Whatever the container answers, the relation allows, and `R` holds again afterwards. -/
def Simulates (perform : κ → ω → α × κ) (step : σ → ω → α → σ → Prop) (R : κ → σ → Prop) : Prop :=
  ∀ ⦃k s⦄ (op : ω), R k s → ∃ t, step s op (perform k op).1 t ∧ R (perform k op).2 t

/-- **What holds of one operation holds of sessions.** -/
lemma Simulates.conforms {perform : κ → ω → α × κ} {step : σ → ω → α → σ → Prop} {R : κ → σ → Prop}
    (h : Simulates perform step R) (ops : List ω) {k : κ} {s : σ} (hstart : R k s) :
    ∃ t, Conforms step s ops (session perform k ops).1 t ∧ R (session perform k ops).2 t := by
  induction ops generalizing k s with
  | nil => exact ⟨s, .nil s, hstart⟩
  | cons op ops ih =>
    obtain ⟨t, hfirst, hnext⟩ := h op hstart
    obtain ⟨u, hrest, hlast⟩ := ih hnext
    exact ⟨u, .cons hfirst hrest, hlast⟩

/-- **A relation without a choice fixes the answers** and the state in the end. -/
lemma Conforms.unique {step : σ → ω → α → σ → Prop} {s t u : σ} {ops : List ω}
    {answers others : List α} (h : Conforms step s ops answers t)
    (h' : Conforms step s ops others u)
    (hstep : ∀ {s op a b t u}, step s op a t → step s op b u → a = b ∧ t = u) :
    answers = others ∧ t = u := by
  induction h generalizing others with
  | nil s =>
    cases h'
    exact ⟨rfl, rfl⟩
  | cons hfirst hrest ih =>
    rcases h' with _ | ⟨hfirst', hrest'⟩
    obtain ⟨rfl, rfl⟩ := hstep hfirst hfirst'
    obtain ⟨rfl, rfl⟩ := ih hrest'
    exact ⟨rfl, rfl⟩

end CodeSift
