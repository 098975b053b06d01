import EqualArea.Text.Blank
import Mathlib

/-!
# Texts without blanks at their ends

* `Text.Trimmed` — what is left of a text when the blanks at its ends are taken off.
* `Text.trimStart_eq_iff`, `Text.trim_eq_iff` — the functions that take them off give that, and
  nothing else is left.
* `Text.Trimmed.exists_cons` — a start that is not blank stays.
-/

namespace EqualArea.Text

/-- A text is a second one with nothing but blanks around it, and that one has no blank at either
end. -/
structure Trimmed (text inner : List Char) : Prop where
  exists_blanks : ∃ before after, text = before ++ inner ++ after ∧
    (∀ c ∈ before, isBlank c = true) ∧ ∀ c ∈ after, isBlank c = true
  head_not_blank : ∀ c ∈ inner.head?, isBlank c = false
  last_not_blank : ∀ c ∈ inner.getLast?, isBlank c = false

lemma trimStart_eq_iff {text inner : List Char} :
    trimStart text = inner ↔ (∃ before, text = before ++ inner ∧ ∀ c ∈ before, isBlank c = true) ∧
      ∀ c ∈ inner.head?, isBlank c = false := by
  constructor
  · rintro rfl
    refine ⟨⟨text.takeWhile isBlank, List.takeWhile_append_dropWhile.symm,
      fun c => List.mem_takeWhile_imp⟩, fun c hc => ?_⟩
    have hhead := List.head?_dropWhile_not isBlank text
    rwa [show (text.dropWhile isBlank).head? = some c from hc] at hhead
  · rintro ⟨⟨before, rfl, hbefore⟩, hhead⟩
    rw [trimStart, List.dropWhile_append_of_pos hbefore]
    cases inner with
    | nil => rfl
    | cons c rest =>
      have hc : ¬isBlank c = true := Bool.not_eq_true _ ▸ hhead c rfl
      rw [List.dropWhile_cons, if_neg hc]

/-- **Trimming takes off the blanks at both ends and nothing else.**  Backwards the start of a text
is its end. -/
theorem trim_eq_iff {text inner : List Char} : trim text = inner ↔ Trimmed text inner := by
  have hreverse : trim text = inner ↔ trimStart (trimStart text).reverse = inner.reverse :=
    List.reverse_eq_iff
  rw [hreverse, trimStart_eq_iff, List.head?_reverse]
  constructor
  · rintro ⟨⟨after, hafter, hblank⟩, hlast⟩
    have hstart : trimStart text = inner ++ after.reverse := by
      rw [← List.reverse_inj, hafter, List.reverse_append, List.reverse_reverse]
    obtain ⟨⟨before, htext, hbefore⟩, hhead⟩ := trimStart_eq_iff.mp hstart
    refine ⟨⟨before, after.reverse, by rw [htext, List.append_assoc], hbefore,
      fun c hc => hblank c (List.mem_reverse.mp hc)⟩, fun c hc => hhead c ?_, hlast⟩
    rw [List.head?_append, Option.mem_def.mp hc]
    rfl
  · rintro ⟨⟨before, after, htext, hbefore, hafter⟩, hhead, hlast⟩
    refine ⟨?_, hlast⟩
    -- If nothing is left, all of the text comes off at the start.
    cases inner with
    | nil =>
      have hstart : trimStart text = [] := by
        refine List.dropWhile_eq_nil_iff.mpr fun c hc => ?_
        rw [htext, List.append_nil, List.mem_append] at hc
        exact hc.elim (hbefore c) (hafter c)
      exact ⟨[], by rw [hstart]; rfl, by simp⟩
    | cons c rest =>
      have hstart : trimStart text = c :: rest ++ after :=
        trimStart_eq_iff.mpr ⟨⟨before, by rw [htext, List.append_assoc], hbefore⟩, hhead⟩
      refine ⟨after.reverse, by rw [hstart, List.reverse_append], fun d hd => ?_⟩
      exact hafter d (List.mem_reverse.mp hd)

/-- A text that does not start with a blank keeps its start. -/
lemma Trimmed.exists_cons {c : Char} {rest inner : List Char} (h : Trimmed (c :: rest) inner)
    (hc : isBlank c = false) : ∃ rest', inner = c :: rest' := by
  obtain ⟨before, after, htext, hbefore, hafter⟩ := h.exists_blanks
  have hsolid {blanks : List Char} (hblanks : ∀ d ∈ blanks, isBlank d = true) : c ∉ blanks :=
    fun hmem => Bool.false_ne_true (hc.symm.trans (hblanks c hmem))
  cases before with
  | cons d before =>
    obtain rfl : c = d := (List.cons.inj htext).1
    exact absurd List.mem_cons_self (hsolid hbefore)
  | nil =>
    cases inner with
    | cons d inner => exact ⟨inner, by rw [(List.cons.inj htext).1]⟩
    | nil =>
      have hmem : c ∈ after := by
        rw [← show c :: rest = after from htext]
        exact List.mem_cons_self
      exact absurd hmem (hsolid hafter)

end EqualArea.Text
