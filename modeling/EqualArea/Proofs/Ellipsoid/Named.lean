import EqualArea.Ellipsoid.Named
import EqualArea.Proofs.Exact.Arith
import EqualArea.Proofs.Text.Trim

/-!
# The language of ellipsoids

Which texts name or describe an ellipsoid, for numbers of any kind.

* `Ellipsoid.Enclosed`, `Ellipsoid.Bare` — a text in a pair of parentheses, and what is left of a
  text without one; by `Ellipsoid.bare_iff` that is what is read.
* `Ellipsoid.Describes` — two literals with one comma between them, and blanks around each.
* `Ellipsoid.builtIn?_eq_some_iff`, `Ellipsoid.described?_eq_some_iff` — what the two steps of the
  look-up find.
* `Ellipsoid.not_enclosed_of_describes`, `Ellipsoid.not_mem_builtInNames` — names, descriptions and
  descriptions in parentheses are three kinds of texts.
* `Ellipsoid.named_eq_ok_iff`, `Ellipsoid.named_eq_error_iff` — what is found, and what is said
  where nothing is.
* `Ellipsoid.named_enclosed` — a pair of parentheses makes no difference to a text without one.
* `Ellipsoid.named_accepts_language` — the whole.

**Design.**  What a literal is, and which number it stands for, is left to the reader of literals;
all that is asked of it is that no literal starts with a parenthesis.  So a text in parentheses
describes nothing before they are taken off, and it makes no difference that one pair is taken off
whether or not it is needed.
-/

namespace EqualArea.Ellipsoid

open Decimal (Literal)
open Text (Trimmed)

variable {α : Type} [Arith α]

/-! ## Parentheses -/

/-- A text is another one in a pair of parentheses. -/
def Enclosed (inner text : List Char) : Prop := text = '(' :: (inner ++ [')'])

/-- A text without one pair of enclosing parentheses, or as it is if it has none. -/
inductive Bare : List Char → List Char → Prop
  | enclosed {inner text : List Char} (h : Enclosed inner text) : Bare text inner
  | plain {text : List Char} (h : ∀ inner, ¬Enclosed inner text) : Bare text text

lemma unwrapped_of_enclosed {inner text : List Char} (h : Enclosed inner text) :
    unwrapped text = inner := by
  subst h
  simp [unwrapped]

/-- What has no pair of parentheses is left alone: only the opening one alone would not be. -/
lemma unwrapped_of_plain {text : List Char} (h : ∀ inner, ¬Enclosed inner text) :
    unwrapped text = text := by
  unfold unwrapped
  split
  · rename_i rest
    split_ifs with hlast
    · obtain ⟨inner, rfl⟩ := List.getLast?_eq_some_iff.mp hlast
      exact absurd rfl (h inner)
    · rfl
  · rfl

/-- What is read is the text without one pair of parentheses. -/
lemma bare_iff {text inner : List Char} : Bare text inner ↔ unwrapped text = inner := by
  constructor
  · rintro (h | h)
    · exact unwrapped_of_enclosed h
    · exact unwrapped_of_plain h
  · rintro rfl
    by_cases h : ∃ inner, Enclosed inner text
    · obtain ⟨inner, hinner⟩ := h
      rw [unwrapped_of_enclosed hinner]
      exact .enclosed hinner
    · rw [unwrapped_of_plain (not_exists.mp h)]
      exact .plain (not_exists.mp h)

/-! ## Descriptions -/

/-- A text consists of the literals of the semimajor axis and the reciprocal flattening, in this
order, with blanks around each and one comma between them. -/
inductive Describes : List Char → Literal → Literal → Prop
  | intro {first second axis ratio : List Char} {semimajor reciprocal : Literal}
      (hfirst : ',' ∉ first) (hsecond : ',' ∉ second) (haxis : Trimmed first axis)
      (hratio : Trimmed second ratio) (hsemimajor : Literal.read? axis = some semimajor)
      (hreciprocal : Literal.read? ratio = some reciprocal) :
      Describes (first ++ ',' :: second) semimajor reciprocal

lemma Describes.comma_mem {text : List Char} {semimajor reciprocal : Literal}
    (h : Describes text semimajor reciprocal) : ',' ∈ text := by
  obtain ⟨-, -, -, -, -, -⟩ := h
  exact List.mem_append_right _ List.mem_cons_self

/-- A text is cut at its only comma. -/
lemma halves?_eq_some_iff {text first second : List Char} :
    halves? text = some (first, second) ↔
      text = first ++ ',' :: second ∧ ',' ∉ first ∧ ',' ∉ second := by
  rw [halves?, List.span_eq_takeWhile_dropWhile]
  have happend : text.takeWhile (· != ',') ++ text.dropWhile (· != ',') = text :=
    List.takeWhile_append_dropWhile
  constructor
  · intro h
    cases hrest : text.dropWhile (· != ',') with
    | nil => simp [hrest] at h
    | cons c rest =>
      have hcomma := List.head?_dropWhile_not (· != ',') text
      simp only [hrest, List.head?_cons, bne_eq_false_iff_eq] at hcomma
      simp only [hrest, Option.ite_none_left_eq_some, Option.some.injEq, Prod.mk.injEq] at h
      obtain ⟨honce, rfl, rfl⟩ := h
      rw [hrest, hcomma] at happend
      refine ⟨happend.symm, fun hmem => ?_, by simpa using honce⟩
      simpa using List.mem_takeWhile_imp hmem
  · rintro ⟨rfl, hfirst, hsecond⟩
    have hplain : ∀ c ∈ first, (c != ',') = true := by
      rintro c hc
      rw [bne_iff_ne]
      rintro rfl
      exact hfirst hc
    rw [List.takeWhile_append_of_pos hplain, List.dropWhile_append_of_pos hplain]
    simp [hsecond]

/-- A number is read from a literal with blanks around it. -/
lemma number?_eq_some_iff {text : List Char} {x : α} :
    number? text = some x ↔
      ∃ inner l, Trimmed text inner ∧ Literal.read? inner = some l ∧ l.value = x := by
  simp only [number?, Option.map_eq_some_iff, ← Text.trim_eq_iff, exists_and_left, exists_eq_left']

/-- A description gives the ellipsoid of its two numbers, and no other text gives any. -/
lemma described?_eq_some_iff {text : List Char} {e : Ellipsoid α} :
    described? text = some e ↔ ∃ semimajor reciprocal,
      Describes text semimajor reciprocal ∧ e = ofReciprocal semimajor.value reciprocal.value := by
  simp only [described?, Option.bind_eq_bind, Option.bind_eq_some_iff, Option.pure_def,
    Option.some.injEq, Prod.exists, halves?_eq_some_iff, number?_eq_some_iff]
  constructor
  · rintro ⟨first, second, ⟨rfl, hfirst, hsecond⟩, a, ⟨axis, l, haxis, hl, rfl⟩, b,
      ⟨ratio, m, hratio, hm, rfl⟩, rfl⟩
    exact ⟨l, m, .intro hfirst hsecond haxis hratio hl hm, rfl⟩
  · rintro ⟨l, m, ⟨hfirst, hsecond, haxis, hratio, hl, hm⟩, rfl⟩
    exact ⟨_, _, ⟨rfl, hfirst, hsecond⟩, _, ⟨_, l, haxis, hl, rfl⟩, _, ⟨_, m, hratio, hm, rfl⟩, rfl⟩

/-- No literal starts with a parenthesis: it would have to be a word or a digit. -/
lemma read?_parenthesis (rest : List Char) : Literal.read? ('(' :: rest) = none := by
  have hword {word : String} (hhead : word.toList.head? ≠ some '(') :
      String.ofList (('(' :: rest).map Char.toLower) ≠ word := by
    rintro rfl
    rw [String.toList_ofList] at hhead
    exact hhead rfl
  have hsign : Literal.takeSign ('(' :: rest) = (false, '(' :: rest) := rfl
  have hnumber : Literal.number? false ('(' :: rest) = none := by
    simp [Literal.number?, Literal.takeFraction, List.span_eq_takeWhile_dropWhile]
  simp only [Literal.read?, hsign]
  rw [if_neg (not_or.mpr ⟨hword (by decide), hword (by decide)⟩), if_neg (hword (by decide))]
  exact hnumber

/-- A description has no parentheses around it, since its first literal would start with one. -/
lemma not_enclosed_of_describes {text inner : List Char} {semimajor reciprocal : Literal}
    (h : Describes text semimajor reciprocal) : ¬Enclosed inner text := by
  intro henclosed
  obtain @⟨first, second, axis, ratio, _, _, -, -, haxis, -, hsemimajor, -⟩ := h
  cases first with
  | nil => cases (List.cons.inj henclosed).1
  | cons c rest =>
    obtain rfl : c = '(' := (List.cons.inj henclosed).1
    obtain ⟨rest', rfl⟩ := haxis.exists_cons (by decide)
    rw [read?_parenthesis] at hsemimajor
    cases hsemimajor

/-! ## Names -/

/-- In a list without repeated names, the entry of a name is found. -/
lemma find?_of_nodup {β : Type} {entries : List (String × β)} {name : String} {x : β}
    (hnodup : (entries.map Prod.fst).Nodup) (hmem : (name, x) ∈ entries) :
    entries.find? (fun entry => entry.1 == name) = some (name, x) := by
  induction entries with
  | nil => cases hmem
  | cons entry entries ih =>
    rw [List.map_cons, List.nodup_cons] at hnodup
    rcases List.mem_cons.mp hmem with rfl | hmem
    · simp
    · have hname : name ∈ entries.map Prod.fst := List.mem_map_of_mem hmem
      have hne : entry.1 ≠ name := by
        rintro rfl
        exact hnodup.1 hname
      rw [List.find?_cons_of_neg (by simpa using hne)]
      exact ih hnodup.2 hmem

/-- The names of the built-in ellipsoids. -/
def builtInNames : List String :=
  ["GRS80", "WGS84", "intl", "bessel", "clrk66", "airy", "sphere", "unitsphere"]

lemma map_builtIn : (builtIn : List (String × α × α)).map Prod.fst = builtInNames := rfl

lemma builtIn?_eq_some_iff {name : String} {e : Ellipsoid α} :
    builtIn? name = some e ↔
      ∃ semimajor reciprocal, (name, semimajor, reciprocal) ∈ builtIn ∧
        e = ofReciprocal semimajor reciprocal := by
  have hnodup : ((builtIn : List (String × α × α)).map Prod.fst).Nodup := by
    rw [map_builtIn]
    decide
  rw [builtIn?, Option.map_eq_some_iff]
  constructor
  · rintro ⟨⟨key, semimajor, reciprocal⟩, hfind, rfl⟩
    obtain rfl : key = name := by simpa using List.find?_some hfind
    exact ⟨semimajor, reciprocal, List.mem_of_find?_eq_some hfind, rfl⟩
  · rintro ⟨semimajor, reciprocal, hmem, rfl⟩
    exact ⟨_, find?_of_nodup hnodup hmem, rfl⟩

lemma builtIn?_eq_none {name : String} (h : name ∉ builtInNames) :
    (builtIn? name : Option (Ellipsoid α)) = none := by
  rw [Option.eq_none_iff_forall_ne_some]
  intro e he
  obtain ⟨semimajor, reciprocal, hmem, -⟩ := builtIn?_eq_some_iff.mp he
  exact h (map_builtIn (α := α) ▸ List.mem_map_of_mem hmem)

/-- A name has neither a comma nor parentheses around it. -/
lemma plain_of_mem_builtInNames {name : String} (h : name ∈ builtInNames) :
    ',' ∉ name.toList ∧ ∀ inner, ¬Enclosed inner name.toList := by
  have hnames : ∀ name ∈ builtInNames, ',' ∉ name.toList ∧ name.toList.head? ≠ some '(' := by
    decide
  obtain ⟨hcomma, hhead⟩ := hnames name h
  refine ⟨hcomma, fun inner henclosed => hhead ?_⟩
  rw [henclosed]
  rfl

/-- What is a description, in parentheses or not, is no name. -/
lemma not_mem_builtInNames {name : String} {text : List Char} {semimajor reciprocal : Literal}
    (htext : name.toList = text ∨ Enclosed text name.toList)
    (h : Describes text semimajor reciprocal) : name ∉ builtInNames := by
  intro hmem
  obtain ⟨hcomma, hplain⟩ := plain_of_mem_builtInNames hmem
  rcases htext with rfl | henclosed
  · exact hcomma h.comma_mem
  · exact hplain text henclosed

/-! ## The look-up -/

/-- What is read is a description, whether it is in parentheses or not. -/
lemma described?_unwrapped_eq_some_iff {text : List Char} {e : Ellipsoid α} :
    described? (unwrapped text) = some e ↔ ∃ inner semimajor reciprocal,
      (text = inner ∨ Enclosed inner text) ∧ Describes inner semimajor reciprocal ∧
        e = ofReciprocal semimajor.value reciprocal.value := by
  rw [described?_eq_some_iff]
  constructor
  · rintro ⟨semimajor, reciprocal, h, rfl⟩
    refine ⟨_, semimajor, reciprocal, ?_, h, rfl⟩
    generalize hinner : unwrapped text = inner
    rw [← bare_iff] at hinner
    cases hinner with
    | enclosed henclosed => exact .inr henclosed
    | plain => exact .inl rfl
  · rintro ⟨inner, semimajor, reciprocal, htext, h, rfl⟩
    refine ⟨semimajor, reciprocal, ?_, rfl⟩
    rcases htext with rfl | henclosed
    · rwa [unwrapped_of_plain fun _ => not_enclosed_of_describes h]
    · rwa [unwrapped_of_enclosed henclosed]

/-- The look-up of what is no name. -/
lemma named_of_not_mem {name : String} (h : name ∉ builtInNames) :
    named name =
      match described? (unwrapped name.toList) with
      | some e => .ok e
      | none => .error (.unknownEllipsoid (α := α) (String.ofList (unwrapped name.toList))) := by
  have hname : (builtIn? name : Option (Ellipsoid α)) = none := builtIn?_eq_none h
  cases hfound : (described? (unwrapped name.toList) : Option (Ellipsoid α)) <;>
    simp only [named, hname, hfound]

/-- What is found is a name or a description. -/
theorem named_eq_ok_iff {name : String} {e : Ellipsoid α} :
    named name = .ok e ↔
      (∃ semimajor reciprocal, (name, semimajor, reciprocal) ∈ builtIn ∧
        e = ofReciprocal semimajor reciprocal) ∨
      ∃ text semimajor reciprocal, (name.toList = text ∨ Enclosed text name.toList) ∧
        Describes text semimajor reciprocal ∧
        e = ofReciprocal semimajor.value reciprocal.value := by
  rw [← builtIn?_eq_some_iff, ← described?_unwrapped_eq_some_iff]
  -- A built-in name does not read as a description, so the order in which the two are tried does
  -- not matter.
  by_cases hname : name ∈ builtInNames
  · have hnot : ¬described? (unwrapped name.toList) = some e := by
      rw [described?_unwrapped_eq_some_iff]
      rintro ⟨text, semimajor, reciprocal, htext, h, -⟩
      exact not_mem_builtInNames htext h hname
    rw [or_iff_left hnot, named]
    rw [← map_builtIn (α := α), List.mem_map] at hname
    obtain ⟨⟨_, semimajor, reciprocal⟩, hmem, rfl⟩ := hname
    rw [builtIn?_eq_some_iff.mpr ⟨semimajor, reciprocal, hmem, rfl⟩]
    simp
  · rw [named_of_not_mem hname, builtIn?_eq_none hname]
    cases (described? (unwrapped name.toList) : Option (Ellipsoid α)) <;> simp

/-- What is not found is reported without its parentheses. -/
theorem named_eq_error_iff {name : String} {fault : Fault α} :
    (named name : Except (Fault α) (Ellipsoid α)) = .error fault ↔
      (∀ e : Ellipsoid α, named name ≠ .ok e) ∧
        fault = .unknownEllipsoid (String.ofList (unwrapped name.toList)) := by
  rw [named]
  cases (builtIn? name : Option (Ellipsoid α)) with
  | some e => simp
  | none =>
    cases h : (described? (unwrapped name.toList) : Option (Ellipsoid α)) with
    | some e => simp [h]
    | none => simp [h, eq_comm]

/-- One pair of parentheses around a text that has none makes no difference, unless the text is a
name. -/
theorem named_enclosed {name : String} (hname : name ∉ builtInNames)
    (hplain : ∀ inner, ¬Enclosed inner name.toList) :
    named ("(" ++ name ++ ")") = (named name : Except (Fault α) (Ellipsoid α)) := by
  have henclosed : Enclosed name.toList ("(" ++ name ++ ")").toList := by
    rw [String.toList_append, String.toList_append]
    rfl
  have hother : "(" ++ name ++ ")" ∉ builtInNames := fun hmem =>
    (plain_of_mem_builtInNames hmem).2 _ henclosed
  rw [named_of_not_mem hname, named_of_not_mem hother, unwrapped_of_enclosed henclosed,
    unwrapped_of_plain hplain]

/-! ## The whole -/

/-- **The language of ellipsoids.**  A text names an ellipsoid exactly when it is a built-in
name, or a description, or a description in one pair of parentheses; a description is two literals
with one comma between them and blanks around each.  The ellipsoid has the semimajor axis listed or
read, and the reciprocal of the other number for its flattening, or that number if it is zero.  Of
every other text it is said, without one enclosing pair of parentheses, that it is unknown.  So
parentheses around a text make no difference, unless it is a name or has some already. -/
theorem named_accepts_language (name : String) :
    (∀ e : Ellipsoid α, named name = .ok e ↔
      ∃ semimajor reciprocal : α,
        ((name, semimajor, reciprocal) ∈ builtIn ∨
          ∃ text axis ratio, (name.toList = text ∨ Enclosed text name.toList) ∧
            Describes text axis ratio ∧ axis.value = semimajor ∧ ratio.value = reciprocal) ∧
        e = ⟨semimajor, if reciprocal == 0 then reciprocal else 1 / reciprocal⟩) ∧
      (∃ text, Bare name.toList text ∧ ∀ fault : Fault α,
        (named name : Except (Fault α) (Ellipsoid α)) = .error fault ↔
          (∀ e : Ellipsoid α, named name ≠ .ok e) ∧
            fault = .unknownEllipsoid (String.ofList text)) ∧
      (name ∉ builtInNames → (∀ inner, ¬Enclosed inner name.toList) →
        named ("(" ++ name ++ ")") = (named name : Except (Fault α) (Ellipsoid α))) := by
  refine ⟨fun e => ?_, ⟨_, bare_iff.mpr rfl, fun fault => named_eq_error_iff⟩, named_enclosed⟩
  rw [named_eq_ok_iff]
  constructor
  · rintro (⟨semimajor, reciprocal, hmem, rfl⟩ | ⟨text, axis, ratio, htext, h, rfl⟩)
    · exact ⟨semimajor, reciprocal, .inl hmem, rfl⟩
    · exact ⟨_, _, .inr ⟨text, axis, ratio, htext, h, rfl, rfl⟩, rfl⟩
  · rintro ⟨semimajor, reciprocal, hmem | ⟨text, axis, ratio, htext, h, rfl, rfl⟩, rfl⟩
    · exact .inl ⟨semimajor, reciprocal, hmem, rfl⟩
    · exact .inr ⟨text, axis, ratio, htext, h, rfl⟩

/-- A semimajor axis of seven and a flattening of a half, with blanks in the description. -/
theorem named_accepts_language_with_blanks :
    (named " 7 ,2" : Except (Fault ℝ) (Ellipsoid ℝ)) = .ok ⟨7, 1 / 2⟩ ∧
      " 7 ,2" ∉ builtInNames ∧ (∀ inner, ¬Enclosed inner " 7 ,2".toList) ∧
      named ("(" ++ " 7 ,2" ++ ")") = (named " 7 ,2" : Except (Fault ℝ) (Ellipsoid ℝ)) := by
  obtain ⟨haccepts, -, henclosed⟩ := named_accepts_language (α := ℝ) " 7 ,2"
  have hname : " 7 ,2" ∉ builtInNames := by decide
  have hplain (inner : List Char) : ¬Enclosed inner " 7 ,2".toList := by
    intro h
    exact absurd (List.cons.inj h).1 (by decide)
  refine ⟨?_, hname, hplain, henclosed hname hplain⟩
  have haxis : Trimmed [' ', '7', ' '] ['7'] := Text.trim_eq_iff.mp (by decide)
  have hratio : Trimmed ['2'] ['2'] := Text.trim_eq_iff.mp (by decide)
  have hdescribes : Describes " 7 ,2".toList (.number false 7 0) (.number false 2 0) :=
    .intro (by decide) (by decide) haxis hratio (by decide) (by decide)
  have hseven : (Literal.value (.number false 7 0) : ℝ) = 7 := by
    change (OfScientific.ofScientific 7 false 0 : ℝ) = 7
    norm_num
  have htwo : (Literal.value (.number false 2 0) : ℝ) = 2 := by
    change (OfScientific.ofScientific 2 false 0 : ℝ) = 2
    norm_num
  refine (haccepts _).mpr ⟨7, 2, .inr ⟨_, _, _, .inl rfl, hdescribes, hseven, htwo⟩, ?_⟩
  rw [if_neg (by rw [Exact.beq_iff]; norm_num)]

end EqualArea.Ellipsoid
