import Mathlib
import MarkupNesting.Proofs.References

/-! What the references in a text are, and what decoding makes of the text: every reference that
names a character is replaced by it, and all else stays. Texts that no reference straddles are
decoded one by one. -/

namespace MarkupNesting

namespace Reference

variable {r r' : List Char} {x x' : Option Char}

/-- A reference begins with the only ampersand in it and ends with the only semicolon. -/
theorem Form.shape (h : Form r x) :
    ∃ inner, r = '&' :: (inner ++ [';']) ∧ '&' ∉ inner ∧ ';' ∉ inner := by
  cases h with
  | named hd hne =>
    exact ⟨_, rfl, fun h => absurd (hd _ h) (by decide), fun h => absurd (hd _ h) (by decide)⟩
  | @decimal ds hd hne hl =>
    refine ⟨'#' :: ds, rfl, ?_, ?_⟩ <;>
      · rw [List.mem_cons, not_or]
        exact ⟨by decide, fun h => absurd (hd _ h) (by decide)⟩
  | @hex m ds hm hd hne hl =>
    refine ⟨'#' :: m :: ds, rfl, ?_, ?_⟩ <;>
      · rw [List.mem_cons, List.mem_cons, not_or, not_or]
        refine ⟨by decide, ?_, fun h => absurd (hd _ h) (by decide)⟩
        rcases hm with rfl | rfl <;> decide

theorem Form.eq_nil_of_eq_append {before back : List Char} (h : Form r x)
    (hr : r = before ++ '&' :: back) : before = [] := by
  obtain ⟨inner, rfl, ha, -⟩ := h.shape
  cases before with
  | nil => rfl
  | cons c before =>
    have hmem : '&' ∈ inner ++ [';'] := by
      rw [(List.cons.inj hr).2]
      simp
    simp [ha] at hmem

theorem Form.eq_of_append_eq (h : Form r x) (h' : Form r' x') {t t' : List Char}
    (ht : r ++ t = r' ++ t') : r = r' ∧ x = x' := by
  obtain ⟨inner, hr, -, hs⟩ := h.shape
  obtain ⟨inner', hr', -, hs'⟩ := h'.shape
  have heq : inner ++ ';' :: t = inner' ++ ';' :: t' := by
    simpa [hr, hr'] using ht
  have hne : ∀ c ∈ inner, decide (c ≠ ';') = true := fun c hc =>
    decide_eq_true fun heq => hs (heq ▸ hc)
  have hne' : ∀ c ∈ inner', decide (c ≠ ';') = true := fun c hc =>
    decide_eq_true fun heq => hs' (heq ▸ hc)
  have hcut := congrArg (List.takeWhile (· ≠ ';')) heq
  rw [takeWhile_ended (by simp) hne, takeWhile_ended (by simp) hne'] at hcut
  have hsame : r = r' := by rw [hr, hr', hcut]
  subst hsame
  obtain ⟨body, hb, hread⟩ := h.read
  obtain ⟨body', hb', hread'⟩ := h'.read
  obtain rfl : body = body' := (List.cons.inj (hb.symm.trans hb')).2
  have hmap := (hread []).symm.trans (hread' [])
  exact ⟨rfl, Option.map_injective (fun _ _ hp => (Prod.mk.inj hp).1) hmap⟩

theorem run_eq_some_iff {p : Char → Bool} (hp : p ';' = false) {cs body : List Char} :
    run p cs = some body ↔
      (∀ c ∈ body, p c = true) ∧ body ≠ [] ∧ ∃ rest, cs = body ++ ';' :: rest := by
  constructor
  · intro h
    simp only [run, Bool.and_eq_true, decide_eq_true_eq, Bool.not_eq_true',
      Option.ite_none_right_eq_some, List.isEmpty_eq_false_iff, Option.some.injEq] at h
    obtain ⟨⟨hs, hne⟩, rfl⟩ := h
    have hget : (cs.takeWhile p ++ cs.dropWhile p)[(cs.takeWhile p).length]? = some ';' := by
      rw [List.takeWhile_append_dropWhile]
      exact hs
    rw [List.getElem?_append_right (Nat.le_refl _), Nat.sub_self] at hget
    cases hrest : cs.dropWhile p with
    | nil => simp [hrest] at hget
    | cons d rest =>
      obtain rfl : d = ';' := by simpa [hrest] using hget
      refine ⟨fun c hc => List.mem_takeWhile_imp hc, hne, rest, ?_⟩
      rw [← hrest, List.takeWhile_append_dropWhile]
  · rintro ⟨hd, hne, rest, rfl⟩
    exact run_eq_some hp hd hne rest

theorem exists_digits_of_read {p : Char → Bool} (hp : p ';' = false) {most base n k : Nat}
    {cs : List Char} {c : Char}
    (h : (do
      let body ← run p cs
      if most < body.length then none
      else return (← character (valueIn base hexValue body), body.length + k)) = some (c, n)) :
    ∃ ds rest, cs = ds ++ ';' :: rest ∧ (∀ d ∈ ds, p d = true) ∧ ds ≠ [] ∧
      ds.length ≤ most ∧ character (numeral base ds) = some c ∧ n = ds.length + k := by
  simp only [Option.bind_eq_bind, Option.bind_eq_some_iff] at h
  obtain ⟨ds, hrun, h⟩ := h
  obtain ⟨hd, hne, rest, rfl⟩ := (run_eq_some_iff hp).mp hrun
  split at h
  · cases h
  · next hl =>
    simp only [Option.bind_eq_some_iff, Option.pure_def, Option.some.injEq, Prod.mk.injEq] at h
    obtain ⟨c, hc, rfl, rfl⟩ := h
    exact ⟨ds, rest, rfl, hd, hne, Nat.le_of_not_lt hl, by rw [← valueIn_eq_numeral, hc], rfl⟩

theorem exists_form_of_read {cs : List Char} {c : Char} {n : Nat} (h : read cs = some (c, n)) :
    ∃ body rest, cs = body ++ rest ∧ Form ('&' :: body) (some c) ∧ n = body.length := by
  unfold read at h
  split at h
  · next rest =>
    split at h
    · next cs =>
      obtain ⟨ds, rest, rfl, hd, hne, hl, hc, rfl⟩ := exists_digits_of_read rfl h
      exact ⟨'#' :: 'x' :: (ds ++ [';']), rest, by simp, hc ▸ .hex (.inl rfl) hd hne hl, by simp⟩
    · next cs =>
      obtain ⟨ds, rest, rfl, hd, hne, hl, hc, rfl⟩ := exists_digits_of_read rfl h
      exact ⟨'#' :: 'X' :: (ds ++ [';']), rest, by simp, hc ▸ .hex (.inr rfl) hd hne hl, by simp⟩
    · obtain ⟨ds, rest, rfl, hd, hne, hl, hc, rfl⟩ := exists_digits_of_read rfl h
      exact ⟨'#' :: (ds ++ [';']), rest, by simp, hc ▸ .decimal hd hne hl, by simp⟩
  · simp only [Option.bind_eq_bind, Option.bind_eq_some_iff] at h
    obtain ⟨name, hrun, x, hx, heq⟩ := h
    obtain ⟨hd, hne, rest, rfl⟩ := (run_eq_some_iff rfl).mp hrun
    simp only [Option.pure_def, Option.some.injEq, Prod.mk.injEq] at heq
    obtain ⟨rfl, rfl⟩ := heq
    exact ⟨name ++ [';'], rest, by simp, hx ▸ .named hd hne, by simp⟩

/-- A character that stands for itself, or a reference and the character that it names if any. -/
inductive Piece
  | plain (c : Char)
  | reference (text : List Char) (x : Option Char)

namespace Piece

def text : Piece → List Char
  | .plain c => [c]
  | .reference r _ => r

def decoded : Piece → List Char
  | .plain c => [c]
  | .reference _ (some c) => [c]
  | .reference r none => r

end Piece

theorem decodeFrom_form (h : Form r x) (rest : List Char) :
    decodeFrom 0 (r ++ rest) = (Piece.reference r x).decoded ++ decodeFrom 0 rest := by
  cases x with
  | some c => exact decodeFrom_form_some h rest
  | none =>
    obtain ⟨body, rfl, hread⟩ := h.read
    obtain ⟨inner, hb, ha, -⟩ := h.shape
    have hbody : '&' ∉ body := by
      rw [(List.cons.inj hb).2]
      simp [ha]
    rw [List.cons_append, decodeFrom, if_pos rfl, hread]
    simp [decodeFrom_plain_append hbody, Piece.decoded]

theorem decodeFrom_cons {c : Char} {cs : List Char}
    (h : ∀ r x rest, Form r x → c :: cs ≠ r ++ rest) :
    decodeFrom 0 (c :: cs) = c :: decodeFrom 0 cs := by
  rw [decodeFrom]
  split
  · next hc =>
    cases hread : read cs with
    | none => rfl
    | some found =>
      obtain ⟨body, rest, rfl, hform, -⟩ := exists_form_of_read hread
      exact absurd (by rw [hc, List.cons_append]) (h _ _ rest hform)
  · rfl

/-- The pieces of a text, with every reference that occurs in it a piece at its place. -/
structure IsCut (ps : List Piece) (s : List Char) : Prop where
  text : ps.flatMap Piece.text = s
  form : ∀ r x, .reference r x ∈ ps → Form r x
  complete : ∀ before r x after, s = before ++ r ++ after → Form r x →
    ∃ front back, ps = front ++ .reference r x :: back ∧ front.flatMap Piece.text = before

/-- A reference begins in the first text and ends in the second. -/
def Straddles (a b : List Char) : Prop :=
  ∃ before front back after x, a = before ++ front ∧ b = back ++ after ∧
    front ≠ [] ∧ back ≠ [] ∧ Form (front ++ back) x

variable {ps qs : List Piece} {a b s : List Char}

theorem IsCut.ne_nil {p : Piece} (h : IsCut ps s) (hp : p ∈ ps) : p.text ≠ [] := by
  cases p with
  | plain c => simp [Piece.text]
  | reference r x =>
    obtain ⟨inner, hr, -⟩ := (h.form r x hp).shape
    simp [Piece.text, hr]

theorem IsCut.tail {p : Piece} (h : IsCut (p :: ps) s) : IsCut ps (ps.flatMap Piece.text) where
  text := rfl
  form r x hmem := h.form r x (List.mem_cons_of_mem p hmem)
  complete before r x after hs hform := by
    have htext := h.text
    rw [List.flatMap_cons, hs, ← List.append_assoc, ← List.append_assoc] at htext
    obtain ⟨front, back, hcut, hfront⟩ := h.complete _ r x after htext.symm hform
    cases front with
    | nil =>
      have hnil : p.text = [] := by simpa using (List.append_eq_nil_iff.mp hfront.symm).1
      exact absurd hnil (h.ne_nil (by simp))
    | cons q front =>
      obtain ⟨rfl, rfl⟩ := List.cons.inj hcut
      rw [List.flatMap_cons] at hfront
      exact ⟨front, back, rfl, List.append_cancel_left hfront⟩

theorem IsCut.decodeFrom (h : IsCut ps s) : decodeFrom 0 s = ps.flatMap Piece.decoded := by
  induction ps generalizing s with
  | nil =>
    rw [← h.text]
    rfl
  | cons p ps ih =>
    have htail := ih h.tail
    have hs := h.text
    rw [List.flatMap_cons] at hs
    rw [List.flatMap_cons, ← htail, ← hs]
    cases p with
    | reference r x => exact decodeFrom_form (h.form r x (by simp)) _
    | plain c =>
      refine decodeFrom_cons fun r x rest hform heq => ?_
      obtain ⟨front, back, hcut, hfront⟩ :=
        h.complete [] r x rest (hs.symm.trans heq) hform
      cases front with
      | nil => simp at hcut
      | cons q front =>
        obtain ⟨rfl, -⟩ := List.cons.inj hcut
        simp [Piece.text] at hfront

theorem IsCut.append (ha : IsCut ps a) (hb : IsCut qs b) (hab : ¬ Straddles a b) :
    IsCut (ps ++ qs) (a ++ b) where
  text := by rw [List.flatMap_append, ha.text, hb.text]
  form r x hmem := (List.mem_append.mp hmem).elim (ha.form r x) (hb.form r x)
  complete before r x after hs hform := by
    have inFirst : ∀ rest, a = before ++ r ++ rest → ∃ front back,
        ps ++ qs = front ++ .reference r x :: back ∧ front.flatMap Piece.text = before := by
      intro rest h
      obtain ⟨front, back, rfl, hfront⟩ := ha.complete before r x rest h hform
      exact ⟨front, back ++ qs, by simp, hfront⟩
    have inSecond : ∀ late, before = a ++ late → b = late ++ r ++ after → ∃ front back,
        ps ++ qs = front ++ .reference r x :: back ∧ front.flatMap Piece.text = before := by
      intro late hbefore h
      obtain ⟨front, back, rfl, rfl⟩ := hb.complete late r x after h hform
      exact ⟨ps ++ front, back, by simp, by rw [List.flatMap_append, ha.text, hbefore]⟩
    -- a reference that is in neither text has a part in each, or is at the end of one
    rw [List.append_assoc, List.append_eq_append_iff] at hs
    rcases hs with ⟨late, hbefore, hrest⟩ | ⟨front, hfirst, hrest⟩
    · exact inSecond late hbefore (by rw [hrest, List.append_assoc])
    · rw [List.append_eq_append_iff] at hrest
      rcases hrest with ⟨rest, rfl, -⟩ | ⟨back, rfl, hsecond⟩
      · exact inFirst rest (by rw [hfirst, List.append_assoc])
      · by_cases hf : front = []
        · subst hf
          exact inSecond [] (by simp [hfirst]) hsecond
        · by_cases hk : back = []
          · subst hk
            exact inFirst [] (by simp [hfirst])
          · exact absurd ⟨before, front, back, after, x, hfirst, hsecond, hf, hk, hform⟩ hab

theorem isCut_nil : IsCut [] [] where
  text := rfl
  form r x h := absurd h List.not_mem_nil
  complete before r x after hs hform := by
    obtain ⟨inner, rfl, -⟩ := hform.shape
    simp at hs

theorem isCut_plain {c : Char} : IsCut [.plain c] [c] where
  text := rfl
  form r x h := by simp at h
  complete before r x after hs hform := by
    obtain ⟨inner, rfl, -⟩ := hform.shape
    have hlen := congrArg List.length hs
    simp only [List.length_append, List.length_cons] at hlen
    omega

theorem isCut_reference (h : Form r x) : IsCut [.reference r x] r where
  text := by simp [Piece.text]
  form r' x' hmem := by
    obtain ⟨rfl, rfl⟩ : r' = r ∧ x' = x := by simpa using hmem
    exact h
  complete before r' x' after hs hform := by
    obtain ⟨inner, hr', -⟩ := hform.shape
    have hstart : r = before ++ '&' :: (inner ++ ';' :: after) := by simp [hs, hr']
    obtain rfl := h.eq_nil_of_eq_append hstart
    have hends : r ++ [] = r' ++ after := by simpa using hs
    obtain ⟨rfl, rfl⟩ := h.eq_of_append_eq hform hends
    exact ⟨[], [], rfl, rfl⟩

theorem Form.not_straddles (h : Form r x) : ¬ Straddles r s := by
  rintro ⟨before, front, back, after, x', hr, -, hf, hk, hform⟩
  obtain ⟨inner, hshape, -⟩ := hform.shape
  obtain ⟨c, front, rfl⟩ := List.exists_cons_of_ne_nil hf
  obtain rfl : c = '&' := (List.cons.inj hshape).1
  obtain rfl := h.eq_nil_of_eq_append hr
  rw [List.nil_append] at hr
  have hends : r ++ back = ('&' :: front ++ back) ++ [] := by simp [hr]
  have hlong := (h.eq_of_append_eq hform hends).1
  rw [← hr, List.self_eq_append_right] at hlong
  exact hk hlong

theorem not_straddles_ampersand : ¬ Straddles a ('&' :: b) := by
  rintro ⟨before, front, back, after, x, -, hb, hf, hk, hform⟩
  obtain ⟨c, back, rfl⟩ := List.exists_cons_of_ne_nil hk
  obtain rfl : '&' = c := (List.cons.inj hb).1
  exact hf (hform.eq_nil_of_eq_append rfl)

theorem exists_isCut (s : List Char) : ∃ ps, IsCut ps s := by
  induction hn : s.length using Nat.strong_induction_on generalizing s with
  | _ n ih =>
    by_cases hs : ∃ r x rest, Form r x ∧ s = r ++ rest
    · obtain ⟨r, x, rest, hform, rfl⟩ := hs
      obtain ⟨inner, hr, -⟩ := hform.shape
      have hlt : rest.length < n := by
        rw [← hn, hr, List.length_append, List.length_cons]
        omega
      obtain ⟨ps, hps⟩ := ih _ hlt rest rfl
      exact ⟨_, (isCut_reference hform).append hps hform.not_straddles⟩
    · -- no reference begins the text, so none straddles its first character and the rest
      cases s with
      | nil => exact ⟨_, isCut_nil⟩
      | cons c cs =>
        obtain ⟨ps, hps⟩ := ih _ (by simp [← hn]) cs rfl
        refine ⟨_, isCut_plain.append hps ?_⟩
        rintro ⟨before, front, back, after, x, hc, rfl, hf, -, hform⟩
        obtain ⟨-, rfl⟩ := (List.append_eq_singleton_iff.mp hc.symm).resolve_right fun h => hf h.2
        exact hs ⟨_, x, after, hform, by simp⟩

end Reference

open Reference

/-- Texts that no reference straddles are decoded one by one. A text is decoded to itself with each
reference in it that names a character replaced by that character. -/
theorem decodeReferences_local :
    (∀ a b : String, ¬ Straddles a.toList b.toList →
      decodeReferences (a ++ b) = decodeReferences a ++ decodeReferences b) ∧
    ∀ s : String, (∃ ps, IsCut ps s.toList) ∧
      ∀ ps, IsCut ps s.toList → decodeReferences s = String.ofList (ps.flatMap Piece.decoded) := by
  refine ⟨fun a b hab => ?_, fun s => ⟨exists_isCut _, fun ps h => ?_⟩⟩
  · obtain ⟨ps, ha⟩ := exists_isCut a.toList
    obtain ⟨qs, hb⟩ := exists_isCut b.toList
    have hcut := ha.append hb hab
    rw [decodeReferences, decodeReferences, decodeReferences, String.toList_append,
      hcut.decodeFrom, ha.decodeFrom, hb.decodeFrom, List.flatMap_append, String.ofList_append]
  · rw [decodeReferences, h.decodeFrom]

/-- An unfinished reference before another one, and a text in two pieces. -/
theorem decodeReferences_local_gt :
    ¬ Straddles "&lt".toList "&gt;=".toList ∧
      decodeReferences ("&lt" ++ "&gt;=") = decodeReferences "&lt" ++ decodeReferences "&gt;=" ∧
      IsCut [.reference "&gt;".toList (some '>'), .plain '='] "&gt;=".toList ∧
      decodeReferences "&gt;=" = ">=" := by
  have hname : Form ('&' :: ("gt".toList ++ [';'])) (some '>') := form_of_mem_names (by simp [names])
  have hgt : Form "&gt;".toList (some '>') := by
    simpa only [String.reduceToList, List.cons_append, List.nil_append] using hname
  have hs : "&gt;".toList ++ ['='] = "&gt;=".toList := by simp
  have hcut := (isCut_reference hgt).append (isCut_plain (c := '=')) hgt.not_straddles
  rw [hs] at hcut
  have hfirst : ¬ Straddles "&lt".toList "&gt;=".toList := by
    rw [show "&gt;=".toList = '&' :: ['g', 't', ';', '='] by simp]
    exact not_straddles_ampersand
  exact ⟨hfirst, decodeReferences_local.1 _ _ hfirst, hcut, (decodeReferences_local.2 _).2 _ hcut⟩

end MarkupNesting
