import ArithLang.Proofs.Scanner
import Mathlib.Data.List.Basic
import Mathlib.Data.List.TakeWhile

/-!
# The segments of a text

A text falls into segments: rows of digits, signs, blanks, and characters that are nothing of the
kind. What a segment may be depends on what stands behind it. A row of digits has no digit behind
it, and the sign of multiplication no asterisk, since the two would be the sign of exponentiation.
`Segment.Fits` says that a segment may stand in front of a text, and `Segmentation` that a text is
put together of segments each of which fits in front of those behind it.

Every text has one segmentation, and the tokens of the text are made of the segments that are no
blanks, in order (`Scanner.tokens_eq_segments`).

## Why there is one segmentation

In front of a segment that fits, the scanner cuts off that segment (`Segment.Fits.cut_eq`), and from
what it cuts off the segment can be told. So two segmentations of a text agree from the front on,
and there is no need to compare the shapes with each other.
-/

namespace ArithLang

/-! ## Blanks -/

theorem Text.not_isDigit_of_isBlank {c : Char} (h : isBlank c = true) : ¬ isDigit c = true := by
  intro hdigit
  have hapart : ∀ range ∈ blankRanges, ∀ first ∈ digitZeros,
      range.2 < first ∨ first + 10 ≤ range.1 := by decide
  obtain ⟨range, hrange, hc⟩ := List.any_eq_true.mp h
  rw [Bool.and_eq_true, decide_eq_true_eq, decide_eq_true_eq] at hc
  obtain ⟨value, hvalue⟩ := Option.isSome_iff_exists.mp hdigit
  obtain ⟨first, hfirst, hc'⟩ := List.exists_of_findSome?_eq_some hvalue
  split at hc'
  · have := hapart range hrange first hfirst
    omega
  · cases hc'

/-! ## Rows of digits -/

/-- No digit stands in front of a text. -/
def Undigited (text : List Char) : Prop := ∀ c ∈ text.head?, ¬ Text.isDigit c = true

@[simp] theorem undigited_nil : Undigited [] := fun _ hc ↦ absurd hc (Option.not_mem_none _)

@[simp] theorem undigited_cons {c : Char} (h : ¬ Text.isDigit c = true) (rest : List Char) :
    Undigited (c :: rest) :=
  fun _ hd ↦ Option.mem_some.mp hd ▸ h

theorem undigited_dropWhile (text : List Char) : Undigited (text.dropWhile Text.isDigit) := by
  intro c hc
  have hnot := List.head?_dropWhile_not Text.isDigit text
  rw [Option.mem_def.mp hc] at hnot
  exact Bool.eq_false_iff.mp hnot

theorem takeWhile_append_of_undigited {digits rest : List Char}
    (hall : digits.all Text.isDigit = true) (hrest : Undigited rest) :
    (digits ++ rest).takeWhile Text.isDigit = digits := by
  rw [List.takeWhile_append_of_pos (List.all_eq_true.mp hall)]
  cases rest with
  | nil => rw [List.takeWhile_nil, List.append_nil]
  | cons c rest => rw [List.takeWhile_cons_of_neg (hrest c rfl), List.append_nil]

/-! ## Segments -/

/-- The shapes of the segments of a text. -/
inductive Shape where
  /-- A row of digits. -/
  | digits
  /-- A plus sign. -/
  | plus
  /-- Two asterisks. -/
  | pow
  /-- One asterisk. -/
  | times
  /-- An opening parenthesis. -/
  | opening
  /-- A closing parenthesis. -/
  | closing
  /-- A blank. -/
  | blank
  /-- Any other character. -/
  | other
deriving DecidableEq, Repr

namespace Shape

/-- The category of the tokens that are made of segments of a shape; of blanks there are none. -/
def category? : Shape → Option Category
  | digits => some .int
  | plus => some .plus
  | pow => some .pow
  | times => some .times
  | opening => some .openPar
  | closing => some .closePar
  | blank => none
  | other => some .badToken

private theorem category?_injective : Function.Injective category? := by
  intro a b h
  cases a <;> cases b <;> first | rfl | cases h

end Shape

/-- A segment of a text. -/
structure Segment where
  /-- The shape of the segment. -/
  shape : Shape
  /-- The characters of the segment. -/
  text : List Char
deriving DecidableEq, Repr

namespace Segment

/-- The sign of exponentiation. -/
def pow : Segment := ⟨.pow, ['*', '*']⟩

/-- The sign of multiplication. -/
def times : Segment := ⟨.times, ['*']⟩

/-- The token that is made of a segment, with the characters of the segment. -/
def token? (segment : Segment) : Option Token :=
  segment.shape.category?.map fun category ↦ .ofCategory category (String.ofList segment.text)

/-- The segment may stand in front of a text. -/
inductive Fits : Segment → List Char → Prop where
  /-- A row of digits, which no digit follows. -/
  | digits {text rest : List Char} (hne : text ≠ []) (hall : text.all Text.isDigit = true)
      (hrest : Undigited rest) : Fits ⟨.digits, text⟩ rest
  /-- A plus sign. -/
  | plus (rest : List Char) : Fits ⟨.plus, ['+']⟩ rest
  /-- Two asterisks. -/
  | pow (rest : List Char) : Fits pow rest
  /-- One asterisk, which no asterisk follows. -/
  | times {rest : List Char} (hrest : rest.head? ≠ some '*') : Fits times rest
  /-- An opening parenthesis. -/
  | opening (rest : List Char) : Fits ⟨.opening, ['(']⟩ rest
  /-- A closing parenthesis. -/
  | closing (rest : List Char) : Fits ⟨.closing, [')']⟩ rest
  /-- A blank. -/
  | blank {c : Char} (h : Text.isBlank c = true) (rest : List Char) : Fits ⟨.blank, [c]⟩ rest
  /-- A character that is no digit, no sign and no blank. -/
  | other {c : Char} (hdigit : ¬ Text.isDigit c = true) (hsign : c ∉ ['+', '*', '(', ')'])
      (hblank : ¬ Text.isBlank c = true) (rest : List Char) : Fits ⟨.other, [c]⟩ rest

end Segment

/-- The text is put together of the segments, each of which fits in front of those behind it. -/
inductive Segmentation : List Segment → List Char → Prop where
  /-- The empty text. -/
  | nil : Segmentation [] []
  /-- A segment in front of a text. -/
  | cons {segment : Segment} {rest : List Char} {segments : List Segment}
      (h : segment.Fits rest) (hrest : Segmentation segments rest) :
      Segmentation (segment :: segments) (segment.text ++ rest)

namespace Segment

variable {segment other : Segment} {rest behind : List Char}

/-! ## What stands behind a segment -/

theorem Fits.text_ne_nil (h : segment.Fits rest) : segment.text ≠ [] := by
  cases h with
  | digits hne _ _ => exact hne
  | _ => exact List.cons_ne_nil _ _

/-- Only rows of digits and the sign of multiplication need anything of what stands behind them. -/
theorem Fits.of_fits (h : segment.Fits rest) (hdigits : segment.shape = .digits → Undigited behind)
    (htimes : segment = Segment.times → behind.head? ≠ some '*') : segment.Fits behind := by
  cases h with
  | digits hne hall _ => exact .digits hne hall (hdigits rfl)
  | plus => exact .plus behind
  | pow => exact .pow behind
  | times _ => exact .times (htimes rfl)
  | opening => exact .opening behind
  | closing => exact .closing behind
  | blank hblank => exact .blank hblank behind
  | other hdigit hsign hblank => exact .other hdigit hsign hblank behind

theorem Fits.at_end (h : segment.Fits rest) : segment.Fits [] :=
  h.of_fits (fun _ ↦ undigited_nil) fun _ ↦ by simp

theorem Fits.of_head?_eq (h : segment.Fits rest) (hhead : behind.head? = rest.head?) :
    segment.Fits behind := by
  refine h.of_fits ?_ ?_
  · intro hshape
    cases h with
    | digits _ _ hrest => exact fun c hc ↦ hrest c (hhead ▸ hc)
    | _ => cases hshape
  · rintro rfl
    cases h with
    | times hrest => rwa [hhead]

/-! ## Segments and the scanner -/

/-- What the scanner does that cuts off a segment. -/
def cut {ε : Type} (segment : Segment) : Cut ε :=
  segment.token?.elim (.skip segment.text.length) (.token · segment.text.length)

/-- **The scanner cuts off the segment** that stands in front. -/
theorem Fits.cut_eq {ε : Type} (h : segment.Fits rest) :
    (Scanner.lexer : Lexer ε).cut (segment.text ++ rest) = segment.cut := by
  cases h with
  | @digits text _ hne hall hrest =>
    obtain ⟨c, digits, rfl⟩ := List.exists_cons_of_ne_nil hne
    rw [List.all_cons, Bool.and_eq_true] at hall
    rw [List.cons_append, Scanner.cut_digits hall.1, takeWhile_append_of_undigited hall.2 hrest]
    rfl
  | plus => exact Scanner.cut_cons '+' rest
  | pow => exact Scanner.cut_cons '*' ('*' :: rest)
  | times hrest =>
    refine (Scanner.cut_cons '*' rest).trans ?_
    rw [Scanner.front, if_neg (by decide), if_neg (by decide), if_pos rfl, if_neg hrest]
    rfl
  | opening => exact Scanner.cut_cons '(' rest
  | closing => exact Scanner.cut_cons ')' rest
  | @blank c hblank _ =>
    have hsign : c ∉ ['+', '*', '(', ')'] := by
      intro hmem
      simp only [List.mem_cons, List.not_mem_nil, or_false] at hmem
      rcases hmem with rfl | rfl | rfl | rfl <;> exact absurd hblank (by decide)
    refine (Scanner.cut_other (Text.not_isDigit_of_isBlank hblank) hsign).trans ?_
    rw [if_pos hblank]
    rfl
  | other hdigit hsign hblank =>
    refine (Scanner.cut_other hdigit hsign).trans ?_
    rw [if_neg hblank]
    rfl

/-- The piece of a segment comes first, and then those of what stands behind it. -/
theorem Fits.pieces_eq (h : segment.Fits rest) :
    Scanner.pieces (segment.text ++ rest) = segment.token?.toList ++ Scanner.pieces rest := by
  obtain ⟨n, hn⟩ := Nat.exists_eq_add_one.mpr (List.length_pos_iff.mpr h.text_ne_nil)
  have hdrop : (segment.text ++ rest).drop (n + 1) = rest := by rw [← hn, List.drop_left]
  rw [Scanner.pieces, Lexer.run_eq, h.cut_eq, Segment.cut, hn]
  cases segment.token? with
  | none =>
    simp only [Option.elim_none, hdrop, Scanner.pieces, Option.toList_none, List.nil_append]
  | some token =>
    simp only [Option.elim_some, hdrop, Scanner.pieces, Option.toList_some, List.cons_append,
      List.nil_append]

/-- **What is cut off tells the segment.** -/
theorem eq_of_cut_eq (hcut : (segment.cut : Cut Empty) = other.cut)
    (htext : segment.text ++ rest = other.text ++ behind) : segment = other ∧ rest = behind := by
  obtain ⟨shape, text⟩ := segment
  obtain ⟨shape', text'⟩ := other
  have hlength : text.length = text'.length ∧ shape.category? = shape'.category? := by
    cases hshape : shape.category? <;> cases hshape' : shape'.category? <;>
      simp_all [cut, token?, Token.ofCategory]
  obtain ⟨rfl, rfl⟩ := List.append_inj htext hlength.1
  rw [Shape.category?_injective hlength.2]
  exact ⟨rfl, rfl⟩

/-- **A segment stands in front** of every text that is not empty. -/
theorem exists_fits {text : List Char} (h : text ≠ []) :
    ∃ (segment : Segment) (rest : List Char), text = segment.text ++ rest ∧ segment.Fits rest := by
  obtain ⟨c, rest, rfl⟩ := List.exists_cons_of_ne_nil h
  by_cases hdigit : Text.isDigit c = true
  · refine ⟨⟨.digits, (c :: rest).takeWhile Text.isDigit⟩, (c :: rest).dropWhile Text.isDigit,
      List.takeWhile_append_dropWhile.symm, .digits ?_ List.all_takeWhile (undigited_dropWhile _)⟩
    rw [List.takeWhile_cons_of_pos hdigit]
    exact List.cons_ne_nil _ _
  by_cases hsign : c ∈ ['+', '*', '(', ')']
  · simp only [List.mem_cons, List.not_mem_nil, or_false] at hsign
    rcases hsign with rfl | rfl | rfl | rfl
    · exact ⟨_, rest, rfl, .plus rest⟩
    · by_cases hstar : rest.head? = some '*'
      · obtain ⟨behind, rfl⟩ := List.head?_eq_some_iff.mp hstar
        exact ⟨_, behind, rfl, .pow behind⟩
      · exact ⟨_, rest, rfl, .times hstar⟩
    · exact ⟨_, rest, rfl, .opening rest⟩
    · exact ⟨_, rest, rfl, .closing rest⟩
  by_cases hblank : Text.isBlank c = true
  · exact ⟨_, rest, rfl, .blank hblank rest⟩
  · exact ⟨_, rest, rfl, .other hdigit hsign hblank rest⟩

end Segment

/-! ## The segmentation of a text -/

namespace Segmentation

variable {segments others u v : List Segment} {text s t : List Char}

/-- Every text falls into segments. -/
theorem exists_of_text (text : List Char) : ∃ segments, Segmentation segments text := by
  induction hlength : text.length using Nat.strongRecOn generalizing text with
  | ind length ih =>
    subst hlength
    rcases eq_or_ne text [] with rfl | hne
    · exact ⟨[], .nil⟩
    · obtain ⟨segment, rest, rfl, hfits⟩ := Segment.exists_fits hne
      have hpos := List.length_pos_iff.mpr hfits.text_ne_nil
      obtain ⟨segments, hrest⟩ := ih rest.length (by rw [List.length_append]; omega) rest rfl
      exact ⟨segment :: segments, .cons hfits hrest⟩

/-- **A text falls into segments in one way.** -/
theorem unique (h : Segmentation segments text) (h' : Segmentation others text) :
    segments = others := by
  induction h generalizing others with
  | nil =>
    generalize htext : ([] : List Char) = text at h'
    cases h' with
    | nil => rfl
    | cons hfits _ => exact absurd (List.append_eq_nil_iff.mp htext.symm).1 hfits.text_ne_nil
  | @cons segment rest segments hfits _ ih =>
    generalize htext : segment.text ++ rest = text at h'
    cases h' with
    | nil => exact absurd (List.append_eq_nil_iff.mp htext).1 hfits.text_ne_nil
    | cons hfits' hrest' =>
      have hcut := hfits.cut_eq (ε := Empty)
      rw [htext, hfits'.cut_eq] at hcut
      obtain ⟨rfl, rfl⟩ := Segment.eq_of_cut_eq hcut.symm htext
      rw [ih hrest']

private theorem flatMap_text (h : Segmentation segments text) :
    segments.flatMap Segment.text = text := by
  induction h with
  | nil => rfl
  | cons _ _ ih => rw [List.flatMap_cons, ih]

/-- **The tokens of a text** are made of its segments. -/
theorem pieces_eq (h : Segmentation segments text) :
    Scanner.pieces text = segments.filterMap Segment.token? := by
  induction h with
  | nil => exact Scanner.pieces_nil
  | @cons segment rest segments hfits _ ih =>
    rw [hfits.pieces_eq, ih, List.filterMap_cons]
    cases segment.token? <;> rfl

theorem exists_fits_of_mem (h : Segmentation segments text) {segment : Segment}
    (hmem : segment ∈ segments) :
    ∃ rest, segment.text ++ rest <:+ text ∧ segment.Fits rest := by
  induction h with
  | nil => cases hmem
  | @cons first rest _ hfits _ ih =>
    rcases List.mem_cons.mp hmem with rfl | hmem
    · exact ⟨rest, List.suffix_refl _, hfits⟩
    · obtain ⟨behind, hsuffix, hbehind⟩ := ih hmem
      exact ⟨behind, hsuffix.trans (List.suffix_append _ _), hbehind⟩

/-! ## Segments of joined texts -/

/-- **The segments of joined texts** are those of the one and then those of the other, if the last
segment in front fits there. -/
theorem append (hu : Segmentation u s) (hv : Segmentation v t)
    (hmeet : ∀ last ∈ u.getLast?, last.Fits t) : Segmentation (u ++ v) (s ++ t) := by
  induction hu with
  | nil => exact hv
  | @cons segment rest segments hfits hrest ih =>
    rw [List.cons_append, List.append_assoc]
    cases hrest with
    | nil => exact .cons (hmeet segment rfl) hv
    | @cons next behind segments hnext hbehind =>
      refine .cons (hfits.of_head?_eq ?_) (ih fun last hlast ↦ hmeet last ?_)
      · rw [List.append_assoc, List.head?_append_of_ne_nil _ hnext.text_ne_nil,
          List.head?_append_of_ne_nil _ hnext.text_ne_nil]
      · rwa [List.getLast?_cons_cons]

/-- **Segments in front and segments behind** divide the text in two. -/
theorem exists_of_append (h : Segmentation (u ++ v) text) :
    ∃ s t, text = s ++ t ∧ Segmentation u s ∧ Segmentation v t ∧
      ∀ last ∈ u.getLast?, last.Fits t := by
  induction u generalizing text with
  | nil => exact ⟨[], text, rfl, .nil, h, fun last hlast ↦ absurd hlast (Option.not_mem_none last)⟩
  | cons segment u ih =>
    cases h with
    | cons hfits hrest =>
      obtain ⟨s, t, rfl, hu, hv, hmeet⟩ := ih hrest
      cases hu with
      | nil =>
        refine ⟨segment.text, t, rfl, ?_, hv, fun last hlast ↦ Option.some.inj hlast ▸ hfits⟩
        have hsingle := Segmentation.cons hfits.at_end .nil
        rwa [List.append_nil] at hsingle
      | @cons next behind u hnext hbehind =>
        have hhead : (next.text ++ behind).head? = (next.text ++ behind ++ t).head? :=
          (List.head?_append_of_ne_nil _
            (List.append_ne_nil_of_left_ne_nil hnext.text_ne_nil _)).symm
        refine ⟨segment.text ++ (next.text ++ behind), t, (List.append_assoc _ _ _).symm,
          .cons (hfits.of_head?_eq hhead) (.cons hnext hbehind), hv, fun last hlast ↦ ?_⟩
        rw [List.getLast?_cons_cons] at hlast
        exact hmeet last hlast

/-- The segments of a row of asterisks: as many pairs as there are, and perhaps one more. -/
theorem stars (hv : Segmentation v t) (ht : t.head? ≠ some '*') : ∀ n,
    Segmentation (List.replicate (n / 2) Segment.pow ++ (List.replicate (n % 2) Segment.times ++ v))
      (List.replicate n '*' ++ t)
  | 0 => hv
  | 1 => .cons (.times ht) hv
  | n + 2 => by
    rw [Nat.add_div_right n (by decide), Nat.add_mod_right, List.replicate_succ]
    exact .cons (.pow _) (stars hv ht n)

theorem getLast?_eq {last : Segment} (h : Segmentation segments text)
    (hlast : segments.getLast? = some last) :
    last.Fits [] ∧ text.getLast? = last.text.getLast? := by
  obtain ⟨u, rfl⟩ := List.getLast?_eq_some_iff.mp hlast
  obtain ⟨s, t, rfl, -, hend, -⟩ := h.exists_of_append
  cases hend with
  | cons hfits hrest =>
    cases hrest
    exact ⟨hfits, by
      rw [List.append_nil, List.getLast?_append_of_ne_nil _ hfits.text_ne_nil]⟩

end Segmentation

namespace Scanner

/-- **A text has one segmentation, and its tokens are made of the segments.** The segments are the
text, in order; those that are no blanks make the tokens, with their characters; the marker comes
last. A row of asterisks between other characters falls into as many pairs as there are, from the
left, and one asterisk alone if the number is odd. -/
theorem tokens_eq_segments (text : String) :
    ∃ segments, Segmentation segments text.toList ∧
      (∀ others, Segmentation others text.toList → others = segments) ∧
      segments.flatMap Segment.text = text.toList ∧
      tokens text = segments.filterMap Segment.token? ++ [.marker (.category .eof)] ∧
      (∀ (session : Session Empty) (id : String), ∃ after,
        (({ session with lexer := lexer } : Session Empty).start id text
          (some (.category .eof))).drain id
          = (segments.filterMap Segment.token? ++ [.marker (.category .eof)], .stop, after)) ∧
      ∀ front n behind, text.toList = front ++ (List.replicate (n + 1) '*' ++ behind) →
        front.getLast? ≠ some '*' → behind.head? ≠ some '*' →
        ∃ u v, Segmentation u front ∧ Segmentation v behind ∧
          segments = u ++ (List.replicate ((n + 1) / 2) Segment.pow
            ++ (List.replicate ((n + 1) % 2) Segment.times ++ v)) := by
  obtain ⟨segments, hsegments⟩ := Segmentation.exists_of_text text.toList
  have htokens : tokens text = segments.filterMap Segment.token? ++ [.marker (.category .eof)] := by
    rw [tokens_eq_pieces, hsegments.pieces_eq]
    rfl
  refine ⟨segments, hsegments, fun _ hothers ↦ hothers.unique hsegments, hsegments.flatMap_text,
    htokens, fun session id ↦ ?_, fun front n behind htext hfront hbehind ↦ ?_⟩
  · rw [← htokens]
    exact drain_start rfl id text
  · obtain ⟨u, hu⟩ := Segmentation.exists_of_text front
    obtain ⟨v, hv⟩ := Segmentation.exists_of_text behind
    refine ⟨u, v, hu, hv, hsegments.unique ?_⟩
    rw [htext]
    refine hu.append (hv.stars hbehind (n + 1)) fun last hlast ↦ ?_
    obtain ⟨hfits, hend⟩ := hu.getLast?_eq hlast
    refine hfits.of_fits (fun _ ↦ undigited_cons (by decide) _) ?_
    rintro rfl
    exact absurd hend hfront

/-- In `2***3` the asterisks are one pair and one more. -/
theorem tokens_threeStars :
    "2***3".toList = ['2'] ++ (List.replicate (2 + 1) '*' ++ ['3']) ∧
      ['2'].getLast? ≠ some '*' ∧ ['3'].head? ≠ some '*' ∧
      tokens "2***3" = [.ofCategory .int "2", .ofCategory .pow "**", .ofCategory .times "*",
        .ofCategory .int "3", .marker (.category .eof)] := by
  have htext : "2***3".toList = ['2'] ++ (List.replicate (2 + 1) '*' ++ ['3']) := by decide
  have hfront : ['2'].getLast? ≠ some '*' := by decide
  have hbehind : ['3'].head? ≠ some '*' := by decide
  have hdigit : ∀ c, Text.isDigit c = true → Segmentation [⟨.digits, [c]⟩] [c] := fun c hc ↦
    .cons (.digits (List.cons_ne_nil c []) (by rw [List.all_cons, hc]; rfl) undigited_nil) .nil
  obtain ⟨segments, -, -, -, htokens, -, hstars⟩ := tokens_eq_segments "2***3"
  obtain ⟨u, v, hu, hv, rfl⟩ := hstars ['2'] 2 ['3'] htext hfront hbehind
  rw [hu.unique (hdigit '2' (by decide)), hv.unique (hdigit '3' (by decide))] at htokens
  exact ⟨htext, hfront, hbehind, htokens⟩

end Scanner

end ArithLang
