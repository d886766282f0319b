import LineScript.Proofs.Line.Slices

/-!
# The places where a line is cut

Cutting a text into segments comes to stand at its beginning, after every blank that it passes over
and after every segment that it cuts off. `Segment.Reached` says at which places, whether or not the
text is cut as a whole in the end. If it is, its segments are what was cut off at these places
(`isCut_of_segmentsOf`); if not, there is a place where nothing can be cut off
(`exists_munch_of_segmentsOf_error`).
-/

namespace LineScript.Segment

open Text

/-- Cutting a text comes to stand after `passed` and before `rest`. -/
inductive Reached (text : List Char) : List Char → List Char → Prop
  | start : Reached text [] text
  | blank {passed rest : List Char} {c : Char} : Reached text passed (c :: rest) →
      isBlank c = true → Reached text (passed ++ [c]) rest
  | segment {passed rest tail remaining : List Char} {c : Char} {shape : Shape} :
      Reached text passed (c :: rest) → isBlank c = false →
      munch passed.getLast? c rest = .ok (shape, tail, remaining) →
      Reached text (passed ++ c :: tail) remaining

/-- A slice of a text is cut off after `passed`, and `remaining` is left. -/
inductive IsCut (text passed : List Char) : Shape → List Char → List Char → Prop
  | intro {c : Char} {rest tail remaining : List Char} {shape : Shape} :
      Reached text passed (c :: rest) → isBlank c = false →
      munch passed.getLast? c rest = .ok (shape, tail, remaining) →
      IsCut text passed shape (c :: tail) remaining

variable {text passed rest slice remaining : List Char} {shape : Shape}

/-- Nothing of the text is lost. -/
theorem Reached.append_eq (h : Reached text passed rest) : passed ++ rest = text := by
  induction h with
  | start => rfl
  | blank _ _ ih => rw [← ih, List.append_assoc, List.singleton_append]
  | segment _ _ hmunch ih =>
    rw [← ih, ← tail_append_of_munch hmunch, List.append_assoc, List.cons_append]

theorem IsCut.reached (h : IsCut text passed shape slice remaining) :
    Reached text (passed ++ slice) remaining := by
  cases h with
  | intro hreached hblank hmunch => exact .segment hreached hblank hmunch

theorem IsCut.append_eq (h : IsCut text passed shape slice remaining) :
    passed ++ (slice ++ remaining) = text := by
  rw [← List.append_assoc]
  exact h.reached.append_eq

/-- What is cut off has the characters of its shape. -/
theorem IsCut.formed (h : IsCut text passed shape slice remaining) : Formed shape slice := by
  cases h with
  | intro _ _ hmunch => exact (formed_of_munch hmunch).1

/-- What the result of cutting a text says about its places. -/
def Outcome (text : List Char) : Except Defect (List Segment) → Prop
  | .ok segments => Reached text text [] ∧ ∀ segment ∈ segments, ∃ before remaining,
      IsCut text before segment.shape segment.text remaining ∧ segment.start = byteSize before
  | .error defect => ∃ before c after, Reached text before (c :: after) ∧
      munch before.getLast? c after = .error defect

/-- Cutting goes on from any place where it comes to stand. -/
theorem outcome_of_reached {previous : Option Char} {offset : Nat}
    (hreached : Reached text passed rest) (hprevious : previous = passed.getLast?)
    (hoffset : offset = byteSize passed) : Outcome text (cutAll previous offset rest) := by
  -- Either a blank or a segment comes first, and cutting goes on after it.
  induction previous, offset, rest using cutAll.induct generalizing passed with
  | case1 previous offset =>
    have hend : passed = text := by simpa using hreached.append_eq
    rw [hend] at hreached
    rw [cutAll]
    exact ⟨hreached, fun _ hmem => absurd hmem List.not_mem_nil⟩
  | case2 previous offset c rest hblank ih =>
    rw [cutAll, if_pos hblank]
    exact ih (hreached.blank hblank) (by simp) (by simp [hoffset])
  | case3 previous offset c rest hblank defect hmunch =>
    rw [cutAll_of_error (by simpa using hblank) hmunch]
    exact ⟨passed, c, rest, hreached, hprevious ▸ hmunch⟩
  | case4 previous offset c rest hblank shape tail remaining hmunch _ ih =>
    have hblank : isBlank c = false := by simpa using hblank
    rw [cutAll_of_ok hblank hmunch]
    rw [hprevious] at hmunch
    have hrest := ih (hreached.segment hblank hmunch) (List.getLast?_append_cons passed c tail).symm
      (by simp [hoffset])
    generalize cutAll (c :: tail).getLast? (offset + byteSize (c :: tail)) remaining = result
      at hrest ⊢
    cases result with
    | error defect => exact hrest
    | ok others =>
      obtain ⟨hend, hcuts⟩ := hrest
      refine ⟨hend, fun segment hmem => ?_⟩
      rcases List.mem_cons.mp hmem with rfl | hmem
      · exact ⟨passed, remaining, .intro hreached hblank hmunch, hoffset⟩
      · exact hcuts segment hmem

/-- If a text is cut as a whole, its end is reached, and its segments are what was cut off. -/
theorem isCut_of_segmentsOf {segments : List Segment} (h : segmentsOf text = .ok segments) :
    Reached text text [] ∧ ∀ segment ∈ segments, ∃ before remaining,
      IsCut text before segment.shape segment.text remaining ∧
        segment.start = byteSize before := by
  have houtcome : Outcome text (segmentsOf text) := outcome_of_reached .start rfl rfl
  rwa [h] at houtcome

/-- Cutting a text goes on from where it comes to stand. -/
theorem exists_earlier_of_reached (h : Reached text passed rest) :
    ∃ earlier, segmentsOf text =
      (cutAll passed.getLast? (byteSize passed) rest).map (earlier ++ ·) := by
  have hmap (segments : List Segment) (result : Except Defect (List Segment)) (segment : Segment) :
      (result.map (segment :: ·)).map (segments ++ ·) =
        result.map (segments ++ [segment] ++ ·) := by
    cases result <;> simp [Except.map]
  induction h with
  | start =>
    refine ⟨[], ?_⟩
    change segmentsOf text = (segmentsOf text).map ([] ++ ·)
    cases segmentsOf text <;> rfl
  | @blank passed rest c _ hblank ih =>
    obtain ⟨earlier, hearlier⟩ := ih
    refine ⟨earlier, ?_⟩
    rw [hearlier, cutAll, if_pos hblank]
    simp
  | @segment passed rest tail remaining c shape _ hblank hmunch ih =>
    obtain ⟨earlier, hearlier⟩ := ih
    refine ⟨earlier ++ [⟨shape, c :: tail, byteSize passed⟩], ?_⟩
    rw [hearlier, cutAll_of_ok hblank hmunch, hmap, List.getLast?_append_cons, byteSize_append]

/-- What was cut off a text is a segment of it, if the text is cut as a whole. -/
theorem mem_segmentsOf_of_isCut (h : IsCut text passed shape slice remaining)
    {segments : List Segment} (hsegments : segmentsOf text = .ok segments) :
    ⟨shape, slice, byteSize passed⟩ ∈ segments := by
  cases h with
  | intro hreached hblank hmunch =>
    obtain ⟨earlier, hearlier⟩ := exists_earlier_of_reached hreached
    rw [hsegments, cutAll_of_ok hblank hmunch] at hearlier
    obtain ⟨later, hlater, rfl⟩ := exists_of_map_eq_ok hearlier.symm
    obtain ⟨others, -, rfl⟩ := exists_of_map_eq_ok hlater
    simp

/-- A text that is not cut as a whole has a place where nothing can be cut off. -/
theorem exists_munch_of_segmentsOf_error {defect : Defect} (h : segmentsOf text = .error defect) :
    ∃ before c after, Reached text before (c :: after) ∧
      munch before.getLast? c after = .error defect := by
  have houtcome : Outcome text (segmentsOf text) := outcome_of_reached .start rfl rfl
  rwa [h] at houtcome

end LineScript.Segment
