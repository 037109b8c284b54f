import ArithLang.Proofs.Segmentation
import Mathlib.Data.List.Basic

/-!
# Where two texts meet

When two texts are joined, the pieces of the one and those of the other follow each other, unless a
segment reaches across the place where the texts meet. Only two kinds of segments can: a row of
digits that goes on, and an asterisk that is the last segment of the first text and has an asterisk
behind it now. `Parted` says that neither happens. It is not enough to look at the characters beside
the place: in `***` and `*` there are asterisks on both sides as in `**` and `*`, but only the
former has one left that is not in a pair.

The condition is exact (`Scanner.pieces_append_iff`). Where it fails, the segment in front is
another one in the joined text than it is alone (`Segment.Fits.exists_longer`), and so is its token.
Where it holds, blanks make no difference (`Scanner.pieces_append_blanks`).
-/

namespace ArithLang

/-- No segment reaches across the place where two texts meet. -/
structure Parted (s t : List Char) : Prop where
  /-- There are not digits on both sides. -/
  digits : ¬ ((∃ c ∈ s.getLast?, Text.isDigit c = true) ∧ ∃ d ∈ t.head?, Text.isDigit d = true)
  /-- There is not the sign of multiplication on the one side and an asterisk on the other. -/
  stars : ¬ ((∃ segments, Segmentation segments s ∧ segments.getLast? = some Segment.times) ∧
    t.head? = some '*')

variable {s t : List Char} {u v : List Segment} {segment : Segment}

/-! ## The last segment in front -/

namespace Segment

private theorem Fits.shape_eq_digits {c : Char} (h : segment.Fits t)
    (hc : c ∈ segment.text.getLast?)
    (hdigit : Text.isDigit c = true) : segment.shape = .digits := by
  cases h with
  | digits _ _ _ => rfl
  | blank hblank _ =>
    obtain rfl := Option.some.inj hc
    exact absurd hdigit (Text.not_isDigit_of_isBlank hblank)
  | other hnot _ _ _ =>
    obtain rfl := Option.some.inj hc
    exact absurd hdigit hnot
  | _ =>
    obtain rfl := Option.some.inj hc
    exact absurd hdigit (by decide)

private theorem Fits.exists_isDigit (h : segment.Fits t) (hshape : segment.shape = .digits) :
    ∃ c ∈ segment.text.getLast?, Text.isDigit c = true := by
  cases h with
  | digits hne hall _ =>
    exact ⟨_, List.getLast?_eq_some_getLast hne, List.all_eq_true.mp hall _ (List.getLast_mem hne)⟩
  | _ => cases hshape

/-- **A segment that does not fit** in front of a text is the start of a longer one there, which
makes another token. -/
theorem Fits.exists_longer (h : segment.Fits []) (hnot : ¬ segment.Fits t) :
    ∃ (longer : Segment) (rest : List Char) (token token' : Token),
      segment.text ++ t = longer.text ++ rest ∧ longer.Fits rest ∧
        segment.token? = some token ∧ longer.token? = some token' ∧ token ≠ token' := by
  cases h with
  | @digits text _ hne hall _ =>
    have hdigit : t.takeWhile Text.isDigit ≠ [] := by
      intro hnil
      refine hnot (.digits hne hall fun d hd hd' ↦ ?_)
      obtain ⟨rest, rfl⟩ := List.head?_eq_some_iff.mp hd
      rw [List.takeWhile_cons_of_pos hd'] at hnil
      cases hnil
    have hlonger : (text ++ t.takeWhile Text.isDigit).all Text.isDigit = true := by
      rw [List.all_append, hall, List.all_takeWhile]
      rfl
    refine ⟨⟨.digits, text ++ t.takeWhile Text.isDigit⟩, t.dropWhile Text.isDigit, _, _, ?_,
      .digits (List.append_ne_nil_of_left_ne_nil hne _) hlonger (undigited_dropWhile t), rfl, rfl,
      ?_⟩
    · rw [List.append_assoc, List.takeWhile_append_dropWhile]
    · intro htoken
      have hpayload := Payload.text.inj (congrArg Token.payload htoken)
      exact hdigit (List.self_eq_append_right.mp (String.ofList_injective hpayload))
  | times _ =>
    have hstar : t.head? = some '*' := by
      by_contra hstar
      exact hnot (.times hstar)
    obtain ⟨rest, rfl⟩ := List.head?_eq_some_iff.mp hstar
    exact ⟨.pow, rest, _, _, rfl, .pow rest, rfl, rfl, by decide⟩
  | plus => exact absurd (.plus t) hnot
  | pow => exact absurd (.pow t) hnot
  | opening => exact absurd (.opening t) hnot
  | closing => exact absurd (.closing t) hnot
  | blank hblank => exact absurd (.blank hblank t) hnot
  | other hdigit hsign hblank => exact absurd (.other hdigit hsign hblank t) hnot

end Segment

namespace Segmentation

/-- **Two texts are parted** if the last segment of the one fits in front of the other. -/
theorem parted_iff (hu : Segmentation u s) :
    Parted s t ↔ ∀ last ∈ u.getLast?, last.Fits t := by
  constructor
  · intro hparted last hlast
    obtain ⟨hfits, hend⟩ := hu.getLast?_eq hlast
    refine hfits.of_fits (fun hshape d hd hdigit ↦ ?_) ?_
    · obtain ⟨c, hc, hcdigit⟩ := hfits.exists_isDigit hshape
      exact hparted.digits ⟨⟨c, hend ▸ hc, hcdigit⟩, d, hd, hdigit⟩
    · rintro rfl hstar
      exact hparted.stars ⟨⟨u, hu, hlast⟩, hstar⟩
  · refine fun hmeet ↦ ⟨?_, ?_⟩
    · rintro ⟨⟨c, hc, hcdigit⟩, d, hd, hdigit⟩
      cases hlast : u.getLast? with
      | none =>
        rw [List.getLast?_eq_none_iff.mp hlast] at hu
        cases hu
        cases hc
      | some last =>
        obtain ⟨-, hend⟩ := hu.getLast?_eq hlast
        have hfits := hmeet last hlast
        have hshape := hfits.shape_eq_digits (hend ▸ hc) hcdigit
        cases hfits with
        | digits _ _ hrest => exact hrest d hd hdigit
        | _ => cases hshape
    · rintro ⟨⟨others, hothers, hlast⟩, hstar⟩
      rw [← hu.unique hothers] at hlast
      cases hmeet _ hlast with
      | times hrest => exact hrest hstar

end Segmentation

/-- A text is parted from one that starts with no digit, if there are not two asterisks side by
side. -/
theorem parted_cons {d : Char} (rest : List Char) (hdigit : ¬ Text.isDigit d = true)
    (hstar : d = '*' → s.getLast? ≠ some '*') : Parted s (d :: rest) where
  digits := by
    rintro ⟨-, c, hc, hcdigit⟩
    obtain rfl := Option.some.inj hc
    exact hdigit hcdigit
  stars := by
    rintro ⟨⟨segments, hsegments, hlast⟩, hhead⟩
    exact hstar (Option.some.inj hhead) (hsegments.getLast?_eq hlast).2

private theorem parted_of_isBlank {c : Char} (h : Text.isBlank c = true) (rest : List Char) :
    Parted s (c :: rest) := by
  refine parted_cons rest (Text.not_isDigit_of_isBlank h) ?_
  rintro rfl
  exact absurd h (by decide)

namespace Scanner

/-- **The pieces of joined texts** are those of the one and then those of the other exactly if the
texts are parted. -/
theorem pieces_append_iff : pieces (s ++ t) = pieces s ++ pieces t ↔ Parted s t := by
  obtain ⟨u, hu⟩ := Segmentation.exists_of_text s
  obtain ⟨v, hv⟩ := Segmentation.exists_of_text t
  rw [hu.parted_iff]
  constructor
  · intro hpieces last hlast
    by_contra hnot
    obtain ⟨front, rfl⟩ := List.getLast?_eq_some_iff.mp hlast
    obtain ⟨s, text, rfl, hfront, hend, hmeet⟩ := hu.exists_of_append
    cases hend with
    | cons hfits hrest =>
      cases hrest
      obtain ⟨longer, rest, token, token', htext, hlonger, htoken, htoken', hne⟩ :=
        hfits.exists_longer hnot
      obtain ⟨w, hw⟩ := Segmentation.exists_of_text rest
      have hhead : (last.text ++ t).head? = (last.text ++ []).head? := by
        rw [List.head?_append_of_ne_nil _ hfits.text_ne_nil,
          List.head?_append_of_ne_nil _ hfits.text_ne_nil]
      have hbehind : Segmentation (longer :: w) (last.text ++ t) := htext ▸ .cons hlonger hw
      have hjoined := hfront.append hbehind fun segment hsegment ↦
        (hmeet segment hsegment).of_head?_eq hhead
      have heq : s ++ (last.text ++ []) ++ t = s ++ (last.text ++ t) := by simp
      rw [heq, hjoined.pieces_eq, hu.pieces_eq, hv.pieces_eq] at hpieces
      simp only [List.filterMap_append, List.filterMap_cons, htoken, htoken', List.append_assoc]
        at hpieces
      exact hne (List.cons.inj (List.append_cancel_left hpieces)).1.symm
  · intro hmeet
    rw [(hu.append hv hmeet).pieces_eq, hu.pieces_eq, hv.pieces_eq, List.filterMap_append]

theorem pieces_append {d : Char} (rest : List Char) (hdigit : ¬ Text.isDigit d = true)
    (hstar : d = '*' → s.getLast? ≠ some '*') :
    pieces (s ++ d :: rest) = pieces s ++ pieces (d :: rest) :=
  pieces_append_iff.mpr (parted_cons rest hdigit hstar)

/-! ## Blanks where two texts meet -/

private theorem pieces_blanks_append {blanks : List Char} (h : blanks.all Text.isBlank = true) :
    pieces (blanks ++ t) = pieces t := by
  induction blanks with
  | nil => rfl
  | cons c blanks ih =>
    rw [List.all_cons, Bool.and_eq_true] at h
    exact (Segment.Fits.blank h.1 (blanks ++ t)).pieces_eq.trans (ih h.2)

/-- Between parted texts, blanks make no difference. -/
theorem pieces_append_blanks (hparted : Parted s t) {blanks : List Char}
    (h : blanks.all Text.isBlank = true) :
    pieces (s ++ (blanks ++ t)) = pieces s ++ pieces t := by
  cases blanks with
  | nil => exact pieces_append_iff.mpr hparted
  | cons c blanks =>
    have hc := h
    rw [List.all_cons, Bool.and_eq_true] at hc
    rw [List.cons_append, pieces_append_iff.mpr (parted_of_isBlank hc.1 _), ← List.cons_append,
      pieces_blanks_append h]

end Scanner

end ArithLang
