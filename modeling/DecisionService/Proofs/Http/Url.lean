import Mathlib
import DecisionService.Proofs.Http.Path
/-!
# URLs with segments

A URL whose path has segments takes more of them behind it and is written with a mark where its path
would read as a host.
-/
namespace DecisionService.Http.Url

def barredInSegment (u : Url) : Char → Bool :=
  if Scheme.isWeb u.scheme || Scheme.isFile u.scheme then Percent.barredInWebSegment
  else Percent.barredInSegment

theorem barredInSegment_eq (u : Url) {c : Char} (h : c ≠ '\\') :
    u.barredInSegment c = Percent.barredInSegment c := by
  rw [barredInSegment]
  split
  · simp [Percent.barredInWebSegment, h]
  · rfl

theorem barredInSegment_of_mem (u : Url) {c : Char} (h : c ∈ ['/', '?', '#', '%']) :
    u.barredInSegment c = true := by
  have hne : c ≠ '\\' := by
    rintro rfl
    exact absurd h (by decide)
  rw [barredInSegment_eq u hne, Percent.barredInSegment_eq]
  simp only [List.mem_cons, List.not_mem_nil, or_false] at h
  rcases h with rfl | rfl | rfl | rfl <;> rfl

theorem barredInSegment_percent (u : Url) : u.barredInSegment '%' = true :=
  u.barredInSegment_of_mem (by decide)

theorem barredInSegment_dot (u : Url) : u.barredInSegment '.' = false := by
  rw [barredInSegment_eq u (by decide), Percent.barredInSegment_eq]
  rfl

theorem not_mem_encode (u : Url) {c : Char} (h : c ∈ ['/', '?', '#']) (text : List Char) :
    c ∉ Percent.encode u.barredInSegment text := by
  have hbarred : u.barredInSegment c = true := by
    apply barredInSegment_of_mem
    simp only [List.mem_cons] at h ⊢
    tauto
  simp only [List.mem_cons, List.not_mem_nil, or_false] at h
  rcases h with rfl | rfl | rfl
  all_goals exact Percent.not_mem_encode hbarred (by decide) (by decide) text

/-! ## Segments put behind the path -/

theorem push_segments {u : Url} {path : List String} (h : u.path = .segments path)
    (texts : List String) :
    u.push texts = { u with
      path := .segments
        (texts.foldl (fun path text => Path.push u.barredInSegment text.toList path)
          (Path.closed path)) } := by
  unfold push
  rw [h]
  rfl

theorem push_word (u : Url) {text : String}
    (hplace : Path.Place.of text.toList = .segment text.toList)
    (h : ∀ c ∈ text.toList, u.barredInSegment c = false) (path : List String) :
    Path.push u.barredInSegment text.toList path = Path.opened path ++ [text] := by
  rw [Path.push_eq u.barredInSegment_percent u.barredInSegment_dot, hplace]
  simp only [Percent.encode_eq_self h, String.ofList_toList]

/-! ## Writing the path -/

def pathMark (u : Url) (path : List String) : String :=
  if path.head? = some "" ∧ 1 < path.length ∧ u.host?.isNone = true then "/." else ""

theorem renderPath_segments {u : Url} {path : List String} (h : u.path = .segments path) :
    u.renderPath = u.pathMark path ++ Path.renderSegments path := by
  unfold renderPath pathMark
  rw [h]
  match path with
  | [] => simp
  | [first] => simp
  | first :: next :: rest =>
    by_cases hfirst : first = ""
    · subst hfirst
      simp
    · simp [hfirst]

/-- Where something stands behind the first segment, the mark depends on that one alone. -/
theorem pathMark_append (u : Url) {front back : List String}
    (hfront : front = [] → back.head? ≠ some "") (hback : back ≠ []) :
    u.pathMark (front ++ back)
      = if front.head? = some "" ∧ u.host?.isNone = true then "/." else "" := by
  cases front with
  | nil => simp [pathMark, hfront rfl]
  | cons first rest =>
    have hlength : 0 < back.length := List.length_pos_iff.mpr hback
    have hmore : 1 < (first :: (rest ++ back)).length := by
      simp only [List.length_cons, List.length_append]
      omega
    refine if_congr ?_ rfl rfl
    simp only [List.cons_append, List.head?_cons, hmore, true_and]

theorem render_withPath (u : Url) (path : List String) :
    ({ u with path := .segments path } : Url).render
      = u.scheme ++ ":" ++ u.renderHost ++ (u.pathMark path ++ Path.renderSegments path)
        ++ u.renderQuery ++ u.renderFragment := by
  rw [render, renderPath_segments rfl]
  rfl

end DecisionService.Http.Url
