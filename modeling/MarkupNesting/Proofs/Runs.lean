import Mathlib

/-! Runs of characters that a reader takes one at a time: it collects them or passes over them. -/

namespace MarkupNesting

variable {σ : Type} {step : σ → Char → σ} {p : Char → Prop}

/-- Characters that are collected, the last one first. -/
theorem foldl_run (state : List Char → σ)
    (hstep : ∀ c run, p c → step (state run) c = state (c :: run)) {cs : List Char}
    (hc : ∀ c ∈ cs, p c) (run : List Char) :
    cs.foldl step (state run) = state (cs.reverse ++ run) := by
  induction cs generalizing run with
  | nil => rfl
  | cons c cs ih =>
    have h := ih (fun d hd => hc d (by simp [hd])) (c :: run)
    rw [List.foldl_cons, hstep c run (hc c (by simp)), h]
    simp

theorem foldl_word {q : Char → Prop} {first : σ} (state : List Char → σ)
    (hfirst : ∀ c, q c → step first c = state [c])
    (hnext : ∀ c run, p c → step (state run) c = state (c :: run)) {c : Char} {cs : List Char}
    (hc : q c) (hcs : ∀ d ∈ cs, p d) : (c :: cs).foldl step first = state (c :: cs).reverse := by
  rw [List.foldl_cons, hfirst c hc, foldl_run state hnext hcs [c], List.reverse_cons]

theorem foldl_same {s : σ} (hstep : ∀ c, p c → step s c = s) {cs : List Char}
    (hc : ∀ c ∈ cs, p c) : cs.foldl step s = s := by
  induction cs with
  | nil => rfl
  | cons c cs ih =>
    rw [List.foldl_cons, hstep c (hc c (by simp)), ih fun d hd => hc d (by simp [hd])]

end MarkupNesting
